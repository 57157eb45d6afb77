import Dacar.Cli.Interleaving

/-!
# Updates lost between two commands

A publication loads the outbox and the sent box again when it records what was accepted, so
little of it can be stale.  A sync saves the state that it loaded before it waited.
-/

namespace Dacar.Cli

variable {κ : Type} [DecidableEq κ] {key : Tuple → κ}

/-! ## Meeting a publication -/

/-- What `UpToDate` asks of a payload. -/
def Redrained (copy : Store key) (files : List Bytes) (rest : Command key Unit) (s : Store key)
    (p : Bytes) : Prop :=
  (rest.overwrites .outbox s = true → InBoxes p copy ∨ p ∈ s .sent) ∧
    (rest.overwrites .sent s = true → p ∈ s .outbox ∨ p ∈ copy .sent) ∧
    (rest.rereads .outbox s = true → p ∈ files → p ∈ s .sent)

/-- Whatever store the rest goes on from, a payload of it stays in the boxes exactly as
`Redrained` says. -/
def Meets (copy : Store key) (files : List Bytes)
    (pt : Script.Point (Content key) Event Failure Unit) : Prop :=
  ∀ s : Store key, (∀ q ∈ pt.store .sent, q ∈ s .sent) → ∀ p, InBoxes p s →
    (InBoxes p (pt.rest.run s).store ↔ Redrained copy files pt.rest s p)

section Publish

variable {copy : Store key} {files : List Bytes}

omit [DecidableEq κ]

theorem meets_done (result : Except Failure Unit) (s : Store key) (saved : List Record)
    (told : List Event) : Meets copy files ⟨.done result, s, saved, told⟩ :=
  fun _ _ _ hp => iff_of_true hp (by simp [Redrained, Script.overwrites, Script.rereads])

/-- The sent box is loaded right before it is saved, and the outbox not at all. -/
theorem appendSent_reloads (accepted : List Bytes) (s : Store key) :
    (appendSent accepted : Command key Unit).overwrites .outbox s = false ∧
      (appendSent accepted : Command key Unit).overwrites .sent s = false ∧
      (appendSent accepted : Command key Unit).rereads .outbox s = false := by
  by_cases hchanged : (appendMissing accepted (s .sent, false)).2 = true
  · simp [appendSent, loadSent, saveSent, Script.put, Script.overwrites, Script.rereads, hchanged]
  · simp [appendSent, loadSent, saveSent, Script.overwrites, Script.rereads, hchanged, pure]

theorem appendSent_meets {accepted : List Bytes} {s : Store key}
    (hcopy : copy .sent = (appendMissing accepted (s .sent, false)).1) :
    ∀ pt ∈ (appendSent accepted : Command key Unit).points s, Meets copy files pt := by
  have hstart : Meets copy files ⟨appendSent accepted, s, [], []⟩ := by
    intro s' _ p hp
    obtain ⟨ho, hs, hr⟩ := appendSent_reloads accepted s'
    refine iff_of_true ?_ (by simp [Redrained, ho, hs, hr])
    rw [(appendSent_run accepted s').2.2]
    exact hp.imp id fun hs => mem_appendMissing.mpr (.inl hs)
  have hsave : Meets copy files ⟨Script.save Record.sent
      (appendMissing accepted (s .sent, false)).1 (Script.done (.ok ())), s, [], []⟩ := by
    intro s' _ p hp
    simp [Redrained, Script.overwrites, Script.rereads, InBoxes, hcopy]
  simp only [appendSent, loadSent, saveSent, Script.get_bind, Script.forall_points_load] at hstart ⊢
  refine ⟨hstart, ?_⟩
  split_ifs
  · exact (Script.forall_points_save _ _ _ _).mpr
      ⟨hsave, (Script.forall_points_done _ _).mpr (meets_done _ _ _ _)⟩
  · exact (Script.forall_points_done _ _).mpr (meets_done _ _ _ _)

/-- What is left once the outbox is drained. -/
def recordSent (accepted : List Bytes) (recordToSent : Bool) : Command key Unit :=
  if recordToSent then appendSent accepted else pure ()

section Record

variable {payloads accepted : List Bytes} {oks : List Bool} {recordToSent : Bool} {s : Store key}

theorem recordSent_reloads (accepted : List Bytes) (recordToSent : Bool) (s : Store key) :
    (recordSent accepted recordToSent : Command key Unit).overwrites .outbox s = false ∧
      (recordSent accepted recordToSent : Command key Unit).overwrites .sent s = false ∧
      (recordSent accepted recordToSent : Command key Unit).rereads .outbox s = false := by
  cases recordToSent with
  | true => exact appendSent_reloads accepted s
  | false => exact ⟨rfl, rfl, rfl⟩

theorem inBoxes_recordSent (s : Store key) {p : Bytes} :
    InBoxes p ((recordSent accepted recordToSent : Command key Unit).run s).store ↔
      InBoxes p s ∨ recordToSent = true ∧ p ∈ accepted := by
  cases recordToSent with
  | true =>
    rw [recordSent, if_pos rfl, (appendSent_run accepted s).2.2]
    simp [InBoxes, mem_appendMissing, or_assoc]
  | false => simp [recordSent]

theorem recordSent_meets (hcopy : recordToSent = true →
    copy .sent = (appendMissing accepted (s .sent, false)).1) :
    ∀ pt ∈ (recordSent accepted recordToSent : Command key Unit).points s,
      Meets copy files pt := by
  cases recordToSent with
  | true => exact appendSent_meets (hcopy rfl)
  | false => exact (Script.forall_points_done _ _).mpr (meets_done _ _ _ _)

theorem recordPublish_eq (hne : (acceptedOf payloads oks).isEmpty = false) :
    (recordPublish payloads oks recordToSent : Command key Unit) =
      Script.load Record.outbox fun outbox =>
        let newOutbox := drained (acceptedOf payloads oks) outbox
        if newOutbox.length ≠ List.length outbox then
          Script.save Record.outbox newOutbox (recordSent (acceptedOf payloads oks) recordToSent)
        else recordSent (acceptedOf payloads oks) recordToSent := by
  simp only [recordPublish, hne, drainOutbox, loadOutbox, saveOutbox, Script.get_bind,
    Script.load_bind]
  rw [if_neg Bool.false_ne_true]
  congr 1
  funext outbox
  by_cases hlen : (drained (acceptedOf payloads oks) outbox).length ≠
      List.length outbox
  · rw [if_pos hlen, if_pos hlen]
    rfl
  · rw [if_neg hlen, if_neg hlen]
    rfl

theorem recordPublish_reloads (payloads : List Bytes) (oks : List Bool) (recordToSent : Bool)
    (s : Store key) :
    (recordPublish payloads oks recordToSent : Command key Unit).overwrites .outbox s = false ∧
      (recordPublish payloads oks recordToSent : Command key Unit).overwrites .sent s = false ∧
      (recordPublish payloads oks recordToSent : Command key Unit).rereads .outbox s =
        !(acceptedOf payloads oks).isEmpty := by
  cases hempty : (acceptedOf payloads oks).isEmpty with
  | true =>
    unfold recordPublish
    rw [if_pos hempty]
    exact ⟨rfl, rfl, rfl⟩
  | false =>
    rw [recordPublish_eq hempty]
    refine ⟨rfl, ?_, rfl⟩
    rw [Script.overwrites, if_neg (by decide)]
    dsimp only
    by_cases hlen : (drained (acceptedOf payloads oks) (s .outbox)).length ≠
        List.length (s .outbox)
    · rw [if_pos hlen, Script.overwrites, if_neg (by decide)]
      exact (recordSent_reloads _ _ _).2.1
    · rw [if_neg hlen]
      exact (recordSent_reloads _ _ _).2.1

theorem inBoxes_afterPublish_iff {accepted : List Bytes} {p : Bytes} (hp : InBoxes p s) :
    InBoxes p (afterPublish accepted recordToSent s) ↔
      (recordToSent = false → p ∈ accepted → p ∈ s .sent) := by
  rw [InBoxes, mem_outbox_afterPublish, mem_sent_afterPublish]
  unfold InBoxes at hp
  cases recordToSent <;> simp <;> tauto

theorem recordPublish_start_meets (payloads : List Bytes) (oks : List Bool) :
    Meets copy (if recordToSent then [] else acceptedOf payloads oks)
      ⟨recordPublish payloads oks recordToSent, s, [], []⟩ := by
  intro s' _ p hp
  obtain ⟨ho, hs, hr⟩ := recordPublish_reloads payloads oks recordToSent s'
  rw [(recordPublish_run payloads oks recordToSent s').2.2, inBoxes_afterPublish_iff hp, Redrained,
    ho, hs, hr]
  generalize acceptedOf payloads oks = accepted
  cases recordToSent <;> cases accepted <;> simp

theorem recordPublish_meets :
    ∀ pt ∈ (recordPublish payloads oks recordToSent : Command key Unit).points s,
      Meets (afterPublish (acceptedOf payloads oks) recordToSent s)
        (if recordToSent then [] else acceptedOf payloads oks) pt := by
  cases hempty : (acceptedOf payloads oks).isEmpty with
  | true =>
    unfold recordPublish
    rw [if_pos hempty]
    exact (Script.forall_points_done _ _).mpr (meets_done _ _ _ _)
  | false =>
    have hstart : Meets (afterPublish (acceptedOf payloads oks) recordToSent s)
        (if recordToSent then [] else acceptedOf payloads oks)
        ⟨recordPublish payloads oks recordToSent, s, [], []⟩ :=
      recordPublish_start_meets payloads oks
    rw [recordPublish_eq hempty] at hstart ⊢
    rw [Script.forall_points_load]
    refine ⟨hstart, ?_⟩
    generalize acceptedOf payloads oks = accepted
    dsimp only
    have hsave : Meets (afterPublish accepted recordToSent s)
        (if recordToSent then [] else accepted)
        ⟨Script.save Record.outbox (drained accepted (s .outbox))
          (recordSent accepted recordToSent), s, [], []⟩ := by
      intro s' hgrown p _
      have hold : p ∈ s .sent → p ∈ s' .sent := hgrown p
      have hkeeps : (Script.save Record.outbox (drained accepted (s .outbox))
          (recordSent accepted recordToSent) : Command key Unit).overwrites .sent s' = false := by
        rw [Script.overwrites, if_neg (by decide)]
        exact (recordSent_reloads _ _ _).2.1
      have hrun : InBoxes p (Function.update s' .outbox (drained accepted (s .outbox))) ↔
          (p ∈ s .outbox ∧ p ∉ accepted) ∨ p ∈ s' .sent := or_congr_left mem_drained
      rw [Script.run_save, inBoxes_recordSent, hrun, Redrained, hkeeps, Script.overwrites,
        if_pos rfl, Script.rereads, if_pos rfl, InBoxes, mem_outbox_afterPublish,
        mem_sent_afterPublish]
      simp only [forall_const, false_imp_iff, and_true, Bool.false_eq_true]
      tauto
    by_cases hlen : (drained accepted (s .outbox)).length ≠
        List.length (s .outbox)
    · rw [if_pos hlen, Script.forall_points_save]
      refine ⟨hsave, recordSent_meets fun hb => ?_⟩
      rw [afterPublish, if_pos hb]
      rfl
    · rw [if_neg hlen]
      refine recordSent_meets fun hb => ?_
      rw [afterPublish, if_pos hb]
      rfl

end Record

section Send

variable {args : PublishArgs} {s : Store key}

theorem send_meets (args : PublishArgs) (s : Store key) (payloads : List Bytes) :
    ∀ pt ∈ (send args payloads : Command key Unit).points s,
      Meets (afterPublish (args.acceptedAmong payloads) args.recordToSent s)
        (if args.recordToSent then [] else args.acceptedAmong payloads) pt := by
  rcases send_cases args payloads with ⟨result, hsend, hacc⟩ | ⟨ps, oks, hsend, hacc⟩
  · rw [hsend]
    exact (Script.forall_points_done _ _).mpr (meets_done _ _ _ _)
  · rw [hsend, hacc]
    exact recordPublish_meets

theorem send_reloads (payloads : List Bytes) (s : Store key) :
    (send args payloads : Command key Unit).overwrites .outbox s = false ∧
      (send args payloads : Command key Unit).overwrites .sent s = false := by
  rcases send_cases args payloads with ⟨result, hsend, -⟩ | ⟨ps, oks, hsend, -⟩
  · rw [hsend]
    exact ⟨rfl, rfl⟩
  · obtain ⟨ho, hs, -⟩ := recordPublish_reloads ps oks args.recordToSent s
    rw [hsend]
    exact ⟨ho, hs⟩

/-- It saves neither box without another look, and moves payloads only. -/
structure Careful (t : Command key Unit) : Prop where
  outbox : ∀ s, t.overwrites .outbox s = false
  sent : ∀ s, t.overwrites .sent s = false
  moves : ∀ s, Moves s (t.run s).store

theorem Careful.load {r : Record} {next : Content key r → Command key Unit}
    (h : ∀ v, Careful (next v)) : Careful (Script.load r next) where
  outbox s := by
    rw [Script.overwrites, (h (s r)).outbox s, ite_self]
  sent s := by
    rw [Script.overwrites, (h (s r)).sent s, ite_self]
  moves s := (h (s r)).moves s

theorem Careful.meets {t : Command key Unit} (h : Careful t) :
    Meets copy [] ⟨t, s, [], []⟩ := fun s' _ _ hp =>
  iff_of_true ((h.moves s').inBoxes hp) (by simp [Redrained, h.outbox s', h.sent s'])

theorem send_careful (hempty : args.files.isEmpty = true) (payloads : List Bytes) :
    Careful (send args payloads : Command key Unit) where
  outbox s := (send_reloads payloads s).1
  sent s := (send_reloads payloads s).2
  moves s := by
    rw [(send_run payloads).2, moves_afterPublish_iff, PublishArgs.recordToSent, hempty]
    exact fun h => nomatch h

theorem publish_meets_files (hne : args.files.isEmpty = false) :
    ∀ pt ∈ (publish args : Command key Unit).points s,
      Meets (afterPublish (args.accepted s) args.recordToSent s) (args.accepted s) pt := by
  rw [publish_eq]
  unfold PublishArgs.accepted PublishArgs.refused
  cases husage : args.outbox || args.useSent || args.all with
  | true => simpa [hne, husage, Script.raise] using meets_done _ _ _ _
  | false =>
    obtain ⟨⟨ho, hu⟩, ha⟩ : (args.outbox = false ∧ args.useSent = false) ∧ args.all = false := by
      simpa using husage
    cases hany : args.files.any List.isEmpty with
    | true => simpa [hne, ho, hu, ha, hany, PublishArgs.useOutbox, Script.raise]
        using meets_done _ _ _ _
    | false =>
      have hmeets := send_meets args s args.files
      simpa [hne, ho, hu, ha, hany, PublishArgs.useOutbox, PublishArgs.recordToSent,
        PublishArgs.sources] using hmeets

theorem publish_meets_boxes (hempty : args.files.isEmpty = true) :
    ∀ pt ∈ (publish args : Command key Unit).points s,
      Meets (afterPublish (args.accepted s) args.recordToSent s) [] pt := by
  have hfiles := List.isEmpty_iff.mp hempty
  have hmeets := send_meets args s (args.sources s)
  have hcareful (payloads : List Bytes) : Careful (send args payloads : Command key Unit) :=
    send_careful hempty payloads
  rw [publish_eq]
  unfold PublishArgs.accepted PublishArgs.refused
  rw [PublishArgs.recordToSent, hempty] at hmeets ⊢
  cases ho : args.useOutbox <;> cases hs : args.useSent <;>
    simp [hfiles, ho, hs, loadOutbox, loadSent, PublishArgs.sources] at hmeets ⊢
  · exact hmeets
  · exact ⟨(Careful.load (r := .sent) hcareful).meets, hmeets⟩
  · exact ⟨(Careful.load (r := .outbox) hcareful).meets, hmeets⟩
  · have hsent (outbox : List Bytes) :
        Careful (Script.load Record.sent fun sent => send args (outbox ++ sent)
          : Command key Unit) := Careful.load fun sent => hcareful (outbox ++ sent)
    exact ⟨(Careful.load (r := .outbox) hsent).meets, (hsent _).meets, hmeets⟩

end Send

end Publish

/-! ## Both commands -/

theorem publish_meets (args : PublishArgs) (s : Store key) :
    ∀ pt ∈ (publish args : Command key Unit).points s,
      Meets ((Networked.publish args).copy s) ((Networked.publish args).acceptedFiles s) pt := by
  cases hempty : args.files.isEmpty with
  | true =>
    have hfiles : (Networked.publish args).acceptedFiles s = [] := if_pos hempty
    exact hfiles ▸ publish_meets_boxes hempty
  | false =>
    have hfiles : (Networked.publish args).acceptedFiles s = args.accepted s :=
      if_neg (by simp [hempty])
    exact hfiles ▸ publish_meets_files hempty

theorem redrained_iff {n : Node} {a : IssueArgs}
    {pt : Script.Point (Content key) Event Failure Unit} {copy : Store key} {files : List Bytes}
    {p : Bytes} (h : .issued p ∈ (issuedAt n a pt).told) :
    Redrained copy files pt.rest (issuedAt n a pt).store p ↔
      (pt.rest.overwrites .outbox (issuedAt n a pt).store = true →
        InBoxes p copy ∨ p ∈ pt.store .sent ∨ delivered a.legs = true) ∧
      (pt.rest.overwrites .sent (issuedAt n a pt).store = true →
        delivered a.legs = false ∨ p ∈ copy .sent) ∧
      (pt.rest.rereads .outbox (issuedAt n a pt).store = true → p ∈ files →
        p ∈ pt.store .sent ∨ delivered a.legs = true) := by
  obtain ⟨ho, hs⟩ := issued_boxes h
  rw [Redrained, issuedAt, ho, hs]

theorem noLost_publish_iff {n : Node} {a : IssueArgs}
    {pt : Script.Point (Content key) Event Failure Unit} {args : PublishArgs} {s : Store key}
    (hpt : pt ∈ (publish args : Command key Unit).points s) :
    NoLost n a pt ↔ UpToDate n a pt (.publish args) s := by
  obtain ⟨hgrown, hqueued⟩ := moves_issue n a pt.store
  have hspares := (publish_spares (r := .state) (by decide) (by decide) args).rest s pt hpt
  obtain ⟨htold, hsilent⟩ := (publish_silent args).points s pt hpt
  have hmeets (p : Bytes) (hp : .issued p ∈ (issuedAt n a pt).told) :
      InBoxes p (endedAfter n a pt).store ↔ _ :=
    (publish_meets args s pt hpt _ hgrown.sent p (hqueued p hp)).trans (redrained_iff hp)
  constructor
  · intro h
    refine ⟨fun op _ ho => ?_, fun p hp => ?_, fun p hp => ?_, fun p hp => ?_,
      fun op hop => absurd hop List.not_mem_nil⟩
    · rw [hspares.not_overwrites] at ho
      exact absurd ho Bool.false_ne_true
    · exact ((hmeets p (issued_iff.mpr hp)).mp (h.payload p (issued_iff.mpr hp))).1
    · exact ((hmeets p (issued_iff.mpr hp)).mp (h.payload p (issued_iff.mpr hp))).2.1
    · exact ((hmeets p (issued_iff.mpr hp)).mp (h.payload p (issued_iff.mpr hp))).2.2
  · intro h
    refine ⟨fun op hop => ?_, fun leg op hop => ?_, fun p hp => ?_⟩
    · rw [endedAfter, hspares.run_store]
      exact holds_of_applies hop
    · rw [htold, endedAfter, hsilent.run_told] at hop
      exact absurd hop List.not_mem_nil
    · exact (hmeets p hp).mpr ⟨h.outbox p (issued_iff.mp hp), h.sent p (issued_iff.mp hp),
        h.files p (issued_iff.mp hp)⟩

/-- A whole issue at a point of another command: no update is lost exactly when what is saved
after it is not stale. -/
theorem no_lost_update_iff (c : Networked) (s : Store key) (n : Node) (a : IssueArgs)
    (pt : Script.Point (Content key) Event Failure Unit)
    (hpt : pt ∈ (c.command : Command key Unit).points s) :
    NoLost n a pt ↔ UpToDate n a pt c s := by
  cases c with
  | sync port args => exact noLost_sync_iff hpt
  | publish args => exact noLost_publish_iff hpt

section Scene

/-- One page with one Delta, and then an empty one. -/
def onePage : SyncArgs := ⟨some ⟨[[⟨some pulledGrant, 1000⟩]], false⟩, none⟩

def withdrawing : IssueArgs :=
  .plain ⟨.fill 16 1, [], true, .fill 16 4, .fill 16 3, Nat.zero_le _⟩ .revoke 2000

def waiting : Networked := .sync .python onePage

/-- The revoke comes before the sync has loaded its state. -/
theorem revoke_before_sync :
    NoLost clerk withdrawing
      ⟨(waiting.command : Command Tuple.key Unit), Store.init 180, [], []⟩ := by
  refine (no_lost_update_iff waiting (Store.init 180) clerk withdrawing _
    (Script.start_mem_points _ _)).mpr ⟨?_, ?_, ?_, ?_, ?_⟩
  · exact fun op _ ho => nomatch ho
  · exact fun p _ ho => absurd ho (by decide +kernel)
  · exact fun p _ hs => absurd hs (by decide +kernel)
  · exact fun p _ _ hf => nomatch hf
  · exact fun op hop => nomatch hop

theorem waiting_points :
    1 < ((waiting.command : Command Tuple.key Unit).points (Store.init 180)).length := by
  decide +kernel

/-- The sync has loaded its state and waits for the page. -/
def atPage : Script.Point (Content Tuple.key) Event Failure Unit :=
  ((waiting.command : Command Tuple.key Unit).points (Store.init 180)).get ⟨1, waiting_points⟩

/-- The revoke comes in between, and the sync saves its old state with the Delta. -/
theorem revoke_undone_by_sync :
    ¬ ∀ pt ∈ (waiting.command : Command Tuple.key Unit).points (Store.init 180),
      NoLost clerk withdrawing pt := by
  intro h
  obtain ⟨ts, hts, -⟩ := (h atPage (List.get_mem _ _)).issue _ ⟨rfl, rfl, by decide +kernel⟩
  have hnone : StateVector.timestamp ((endedAfter clerk withdrawing atPage).store .state) .revoke
      withdrawing.tuple = none := by
    decide +kernel
  exact nomatch hnone.symm.trans hts

end Scene

end Dacar.Cli
