import Dacar.Cli.Freshness
import Dacar.Clock

/-!
# The plaintext ledgers of the ports

Both ports write a row for every tuple issued with its plaintext.  Python keeps the earliest
time it saw the tuple at, JavaScript the last one.
-/

namespace Dacar.Cli

variable {κ : Type} [DecidableEq κ] {key : Tuple → κ}

/-! ## Ledgers on their own -/

/-- A tuple that was issued, with its plaintext and the physical time. -/
structure Issuance (κ : Type) where
  tuple : κ
  plaintext : Plaintext
  time : ℕ

def Port.recordIn (port : Port) (ledger : OrderedMap κ LedgerRow) (e : Issuance κ) :
    OrderedMap κ LedgerRow :=
  ledger.upsert e.tuple (port.ledgerRow e.plaintext e.time)

/-- When one of these issues the tuple first. -/
def firstIssued (es : List (Issuance κ)) (k : κ) : Option ℕ :=
  (es.find? fun e => e.tuple = k).map Issuance.time

/-- When the tuple was issued first: by one of these, or before as the ledger has it. -/
def firstTime (ledger : OrderedMap κ LedgerRow) (es : List (Issuance κ)) (k : κ) : Option ℕ :=
  ((ledger.get? k).map LedgerRow.firstSeen).merge min (firstIssued es k)

/-- The order of time. -/
def Chronological (es : List (Issuance κ)) : Prop := es.Pairwise fun e e' => e.time ≤ e'.time

/-- No tuple is issued later than it was first. -/
def NeverLater (ledger : OrderedMap κ LedgerRow) (es : List (Issuance κ)) : Prop :=
  ∀ e ∈ es, firstTime ledger es e.tuple = some e.time

section Ledgers

variable {ledger : OrderedMap κ LedgerRow} {e : Issuance κ} {es : List (Issuance κ)}

theorem firstIssued_cons_self : firstIssued (e :: es) e.tuple = some e.time := by
  rw [firstIssued, List.find?_cons_of_pos (by simp), Option.map_some]

theorem firstIssued_cons_ne {k : κ} (h : k ≠ e.tuple) :
    firstIssued (e :: es) k = firstIssued es k := by
  rw [firstIssued, List.find?_cons_of_neg (by simpa using h.symm), firstIssued]

/-- The first time is one of the times. -/
theorem exists_of_firstIssued {k : κ} {t : ℕ} (h : firstIssued es k = some t) :
    ∃ e ∈ es, e.time = t := by
  obtain ⟨e, hfind, rfl⟩ := Option.map_eq_some_iff.mp h
  exact ⟨e, List.mem_of_find?_eq_some hfind, rfl⟩

theorem firstIssued_le (h : Chronological es) (he : e ∈ es) :
    ∃ t, firstIssued es e.tuple = some t ∧ t ≤ e.time := by
  induction es with
  | nil => cases he
  | cons e₁ es ih =>
    by_cases hk : e.tuple = e₁.tuple
    · rw [hk, firstIssued_cons_self]
      refine ⟨e₁.time, rfl, ?_⟩
      rcases List.mem_cons.mp he with rfl | he
      · exact le_rfl
      · exact List.rel_of_pairwise_cons h he
    · rw [firstIssued_cons_ne hk]
      rcases List.mem_cons.mp he with rfl | he
      · exact absurd rfl hk
      · exact ih (List.Pairwise.of_cons h) he

/-- The first time is none of the later ones. -/
theorem firstTime_le (h : Chronological es) (he : e ∈ es) :
    ∃ t, firstTime ledger es e.tuple = some t ∧ t ≤ e.time := by
  obtain ⟨t, hissued, hle⟩ := firstIssued_le h he
  rw [firstTime, hissued]
  cases (ledger.get? e.tuple).map LedgerRow.firstSeen with
  | none => exact ⟨t, rfl, hle⟩
  | some old => exact ⟨min old t, rfl, (min_le_right old t).trans hle⟩

theorem get?_recordIn (port : Port) (ledger : OrderedMap κ LedgerRow) (e : Issuance κ) (k : κ) :
    (port.recordIn ledger e).get? k =
      if k = e.tuple then some (port.ledgerRow e.plaintext e.time (ledger.get? e.tuple))
      else ledger.get? k :=
  OrderedMap.get?_upsert ..

/-- A row that Python writes has the smaller of two times. -/
theorem firstSeen_python (t : Plaintext) (time : ℕ) (old : Option LedgerRow) :
    some (Port.python.ledgerRow t time old).firstSeen =
      (old.map LedgerRow.firstSeen).merge min (some time) := by
  cases old with
  | none => rfl
  | some row =>
    change some (if time < row.firstSeen then time else row.firstSeen) =
      some (min row.firstSeen time)
    rw [min_comm, min_def_lt]

/-- Recording in Python leaves the first times as they are. -/
theorem firstTime_python (h : Chronological (e :: es)) (k : κ) :
    firstTime (Port.python.recordIn ledger e) es k = firstTime ledger (e :: es) k := by
  rw [firstTime, get?_recordIn, firstTime]
  by_cases hk : k = e.tuple
  · subst hk
    rw [if_pos rfl, Option.map_some, firstSeen_python, firstIssued_cons_self]
    cases hissued : firstIssued es e.tuple with
    | none => cases (ledger.get? e.tuple).map LedgerRow.firstSeen <;> rfl
    | some t =>
      obtain ⟨e', he', rfl⟩ := exists_of_firstIssued hissued
      have hle : e.time ≤ e'.time := List.rel_of_pairwise_cons h he'
      cases (ledger.get? e.tuple).map LedgerRow.firstSeen with
      | none => exact congrArg some (min_eq_left hle)
      | some old => exact congrArg some (min_eq_left ((min_le_right old e.time).trans hle))
  · rw [if_neg hk, firstIssued_cons_ne hk]

/-- Python's rows have the first times. -/
theorem firstSeen_foldl_python (h : Chronological es) (k : κ) :
    ((es.foldl Port.python.recordIn ledger).get? k).map LedgerRow.firstSeen =
      firstTime ledger es k := by
  induction es generalizing ledger with
  | nil => cases hrow : ledger.get? k <;> simp [firstTime, firstIssued, hrow]
  | cons e es ih => rw [List.foldl_cons, ih (List.Pairwise.of_cons h), firstTime_python h]

/-- At its first time the two rows of a tuple are the same. -/
theorem ledgerRow_eq {t : Plaintext} {time : ℕ} {old : Option LedgerRow}
    (h : (old.map LedgerRow.firstSeen).merge min (some time) = some time) :
    Port.javascript.ledgerRow t time old = Port.python.ledgerRow t time old := by
  have hpython : (Port.python.ledgerRow t time old).firstSeen = time :=
    Option.some.inj ((firstSeen_python t time old).trans h)
  have hrow : Port.python.ledgerRow t time old =
      ⟨t.object, t.relation, t.wildcard, (Port.python.ledgerRow t time old).firstSeen⟩ := rfl
  rw [hrow, hpython]
  cases old <;> rfl

/-- Where nothing is issued again later, JavaScript writes the rows that Python writes. -/
theorem foldl_javascript_eq (h : Chronological es) (hnever : NeverLater ledger es) :
    es.foldl Port.javascript.recordIn ledger = es.foldl Port.python.recordIn ledger := by
  induction es generalizing ledger with
  | nil => rfl
  | cons e es ih =>
    have hfirst := hnever e List.mem_cons_self
    rw [firstTime, firstIssued_cons_self] at hfirst
    have hstep : Port.javascript.recordIn ledger e = Port.python.recordIn ledger e :=
      OrderedMap.upsert_congr (ledgerRow_eq hfirst)
    have hlater : NeverLater (Port.python.recordIn ledger e) es := by
      intro e' he'
      rw [firstTime_python h]
      exact hnever e' (List.mem_cons_of_mem _ he')
    rw [List.foldl_cons, List.foldl_cons, hstep, ih (List.Pairwise.of_cons h) hlater]

theorem firstSeen_javascript (t : Plaintext) (time : ℕ) (old : Option LedgerRow) :
    (Port.javascript.ledgerRow t time old).firstSeen = time := by
  cases old <;> rfl

/-- A row of JavaScript has the last time. -/
theorem firstSeen_le_javascript (h : Chronological es) (he : e ∈ es) :
    ∃ row, (es.foldl Port.javascript.recordIn ledger).get? e.tuple = some row ∧
      e.time ≤ row.firstSeen := by
  induction es using List.reverseRecOn with
  | nil => cases he
  | append_singleton es last ih =>
    rw [List.foldl_concat, get?_recordIn]
    rw [Chronological, List.pairwise_append] at h
    by_cases hk : e.tuple = last.tuple
    · rw [if_pos hk]
      refine ⟨_, rfl, ?_⟩
      rw [firstSeen_javascript]
      rcases List.mem_append.mp he with he | he
      · exact h.2.2 e he last (List.mem_singleton_self last)
      · exact (congrArg Issuance.time (List.mem_singleton.mp he)).le
    · rw [if_neg hk]
      rcases List.mem_append.mp he with he | he
      · exact ih h.1 he
      · exact absurd (congrArg Issuance.tuple (List.mem_singleton.mp he)) hk

/-- The ports write the same rows in the same order, with the first times in them. -/
structure LedgersAgree (ledger : OrderedMap κ LedgerRow) (es : List (Issuance κ))
    (python javascript : OrderedMap κ LedgerRow) : Prop where
  rows : python = javascript
  firstSeen : ∀ k row, (python.get? k = some row ∨ javascript.get? k = some row) →
    firstTime ledger es k = some row.firstSeen

theorem ledgersAgree_iff (h : Chronological es) :
    LedgersAgree ledger es (es.foldl Port.python.recordIn ledger)
      (es.foldl Port.javascript.recordIn ledger) ↔ NeverLater ledger es := by
  constructor
  · intro hagree e he
    obtain ⟨row, hrow, hle⟩ := firstSeen_le_javascript h he
    obtain ⟨t, ht, hlt⟩ := firstTime_le h he
    have hfirst := hagree.firstSeen e.tuple row (.inr hrow)
    obtain rfl : t = row.firstSeen := Option.some.inj (ht.symm.trans hfirst)
    rw [ht, le_antisymm hlt hle]
  · intro hnever
    have heq := foldl_javascript_eq h hnever
    refine ⟨heq.symm, fun k row hrow => ?_⟩
    rw [heq, or_self] at hrow
    rw [← firstSeen_foldl_python h, hrow]
    rfl

end Ledgers

/-! ## Runs of the commands -/

/-- What the command writes to the ledger, where it comes that far. -/
def issuance (n : Node) (a : IssueArgs) (s : Store key) : Option (Issuance κ) := do
  let op ← n.draw a (s .clock)
  let t ← a.plaintext
  if a.Passes (s .state) op then some ⟨key op.tuple, t, physical op.hlc⟩ else none

/-- The commands one after the other, whatever each ends with. -/
def issueAll (n : Node) : List IssueArgs → Store key → Store key
  | [], s => s
  | a :: as, s => issueAll n as ((issue n a : Command key Unit).run s).store

/-- The tuples that the commands issue. -/
def issuances (n : Node) : List IssueArgs → Store key → List (Issuance κ)
  | [], _ => []
  | a :: as, s =>
    (issuance n a s).toList ++ issuances n as ((issue n a : Command key Unit).run s).store

section Commands

variable {n : Node} {a : IssueArgs} {s : Store key}

theorem issue_ledger (n : Node) (a : IssueArgs) (s : Store key) :
    ((issue n a : Command key Unit).run s).store .ledger =
      (issuance n a s).toList.foldl n.port.recordIn (s .ledger) := by
  unfold issuance
  cases h : n.draw a (s .clock) with
  | none =>
    rw [issue_of_none h]
    rfl
  | some op =>
    by_cases hp : a.Passes (s .state) op
    · rw [issue_store_of_passes h hp (by decide) (by decide), queued, ledgerAfter]
      cases a.plaintext with
      | none => rfl
      | some t =>
        simp only [Option.bind_eq_bind, Option.bind_some, if_pos hp, Option.toList_some,
          List.foldl_cons, List.foldl_nil]
        rfl
    · rw [issue_of_not_passes h hp]
      cases a.plaintext with
      | none => rfl
      | some t =>
        simp only [Option.bind_eq_bind, Option.bind_some, if_neg hp]
        rfl

/-- Both ports draw the same operation, and keep the same clock and the same state. -/
structure SameClock (s s' : Store key) : Prop where
  clock : s .clock = s' .clock
  state : s .state = s' .state

omit [DecidableEq κ] in
theorem SameClock.draw {s s' : Store key} (h : SameClock s s') (port : Port) (n : Node)
    (a : IssueArgs) : Node.draw { n with port } a (s' .clock) = n.draw a (s .clock) := by
  rw [h.clock]
  rfl

theorem SameClock.issue {s s' : Store key} (h : SameClock s s') (port : Port) (n : Node)
    (a : IssueArgs) :
    SameClock ((Cli.issue n a : Command key Unit).run s).store
      ((Cli.issue { n with port } a : Command key Unit).run s').store := by
  have hdraw := h.draw port n a
  cases hop : n.draw a (s .clock) with
  | none =>
    rw [issue_of_none hop, issue_of_none (hdraw.trans hop)]
    exact h
  | some op =>
    have hop' := hdraw.trans hop
    by_cases hp : a.Passes (s .state) op
    · have hp' : a.Passes (s' .state) op := h.state ▸ hp
      constructor
      · rw [issue_store_of_passes hop hp (by decide) (by decide),
          issue_store_of_passes hop' hp' (by decide) (by decide), queued, queued, h.clock]
      · rw [issue_store_of_passes hop hp (by decide) (by decide),
          issue_store_of_passes hop' hp' (by decide) (by decide), queued, queued, h.state]
    · have hp' : ¬ a.Passes (s' .state) op := h.state ▸ hp
      rw [issue_of_not_passes hop hp, issue_of_not_passes hop' hp', h.clock]
      exact ⟨rfl, h.state⟩

omit [DecidableEq κ] in
theorem SameClock.issuance {s s' : Store key} (h : SameClock s s') (port : Port) (n : Node)
    (a : IssueArgs) : Cli.issuance { n with port } a s' = Cli.issuance n a s := by
  rw [Cli.issuance, h.draw, ← h.state, Cli.issuance]

theorem SameClock.issuances {s s' : Store key} (h : SameClock s s') (port : Port) (n : Node)
    (as : List IssueArgs) : Cli.issuances { n with port } as s' = Cli.issuances n as s := by
  induction as generalizing s s' with
  | nil => rfl
  | cons a as ih => rw [Cli.issuances, h.issuance, ih (h.issue port n a), Cli.issuances]

/-- The ledger after the commands has a row for each tuple they issued. -/
theorem issueAll_ledger (n : Node) (as : List IssueArgs) (s : Store key) :
    issueAll n as s .ledger = (issuances n as s).foldl n.port.recordIn (s .ledger) := by
  induction as generalizing s with
  | nil => rfl
  | cons a as ih => rw [issueAll, ih, issue_ledger, issuances, List.foldl_append]

omit [DecidableEq κ] in
/-- What is issued has the physical time that the clock has afterwards. -/
theorem physical_draw {op : Operation} (h : n.draw a (s .clock) = some op) :
    physical op.hlc = (Clock.now (s .clock) a.phys).2.lastMs ∧
      Clock.lastMs (s .clock) ≤ (Clock.now (s .clock) a.phys).2.lastMs := by
  obtain ⟨hnow, -, -⟩ := draw_eq_some h
  rw [Clock.now_eq, Clock.pack] at hnow
  rw [Clock.now_eq, Clock.pack]
  refine ⟨physical_of_packHlc hnow, ?_⟩
  dsimp only
  split_ifs with hlater
  · exact hlater.le
  · exact le_rfl

theorem issuance_time {e : Issuance κ} (h : issuance n a s = some e) :
    Clock.lastMs (s .clock) ≤ e.time ∧
      e.time ≤ Clock.lastMs (((issue n a : Command key Unit).run s).store .clock) := by
  obtain ⟨op, hop, h⟩ := Option.bind_eq_some_iff.mp h
  obtain ⟨t, -, h⟩ := Option.bind_eq_some_iff.mp h
  split_ifs at h with hp
  obtain rfl := Option.some.inj h
  rw [issue_store_of_passes hop hp (by decide) (by decide), queued]
  obtain ⟨hphysical, hle⟩ := physical_draw hop
  exact ⟨hle.trans hphysical.ge, hphysical.le⟩

theorem lastMs_le_issue (n : Node) (a : IssueArgs) (s : Store key) :
    Clock.lastMs (s .clock) ≤
      Clock.lastMs (((issue n a : Command key Unit).run s).store .clock) := by
  rcases issue_leaves n a s with ⟨hclock, -⟩ | ⟨op, hop, hclock, -⟩
  · rw [hclock]
  · rw [hclock]
    exact (physical_draw hop).2

/-- The clock never goes back, so what is issued is in the order of time. -/
theorem chronological_issuances (n : Node) (as : List IssueArgs) (s : Store key) :
    Chronological (issuances n as s) ∧
      ∀ e ∈ issuances n as s, Clock.lastMs (s .clock) ≤ e.time := by
  induction as generalizing s with
  | nil => exact ⟨List.Pairwise.nil, fun e he => nomatch he⟩
  | cons a as ih =>
    obtain ⟨hlater, hle⟩ := ih ((issue n a : Command key Unit).run s).store
    rw [issuances]
    cases hfirst : issuance n a s with
    | none => exact ⟨hlater, fun e he => (lastMs_le_issue n a s).trans (hle e he)⟩
    | some e₁ =>
      obtain ⟨hstart, hend⟩ := issuance_time hfirst
      refine ⟨List.pairwise_cons.mpr ⟨fun e he => hend.trans (hle e he), hlater⟩, ?_⟩
      rw [Option.toList_some, List.singleton_append, List.forall_mem_cons]
      exact ⟨hstart, fun e he => (lastMs_le_issue n a s).trans (hle e he)⟩

end Commands

/-- The ledgers agree exactly when no tuple is issued at a later physical time than it was
issued at first. -/
theorem ledgers_agree_iff (n : Node) (as : List IssueArgs) (s : Store key) :
    LedgersAgree (s .ledger) (issuances n as s)
        (issueAll { n with port := .python } as s .ledger)
        (issueAll { n with port := .javascript } as s .ledger) ↔
      NeverLater (s .ledger) (issuances n as s) := by
  have hsame : SameClock s s := ⟨rfl, rfl⟩
  rw [issueAll_ledger, issueAll_ledger, hsame.issuances .python, hsame.issuances .javascript]
  exact ledgersAgree_iff (chronological_issuances n as s).1

/-- A grant with its plaintext, and its revoke a second later. -/
def grantedThenRevoked : List IssueArgs :=
  let tuple : Tuple := ⟨.fill 16 1, [], true, .fill 16 2, .fill 16 3, Nat.zero_le _⟩
  [{ IssueArgs.plain tuple .grant 1000 with plaintext := some ⟨"*", "read", false⟩ },
    { IssueArgs.plain tuple .revoke 2000 with plaintext := some ⟨"*", "read", false⟩ }]

/-- The revoke moves the time of the row in JavaScript. -/
theorem ledgers_differ_after_revoke :
    let s : Store Tuple.key := .init 180
    ¬ LedgersAgree (s .ledger) (issuances clerk grantedThenRevoked s)
      (issueAll { clerk with port := .python } grantedThenRevoked s .ledger)
      (issueAll { clerk with port := .javascript } grantedThenRevoked s .ledger) := by
  intro s h
  have hrows := congrArg (fun ledger => ledger.values.map LedgerRow.firstSeen) h.rows
  exact absurd hrows (by decide +kernel)

end Dacar.Cli
