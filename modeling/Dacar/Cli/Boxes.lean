import Dacar.Cli.Commands

/-!
# What the commands do to the outbox and the sent box

A payload is in the boxes as long as it is in one of the two: from the outbox it can still
be published, from the sent box it can be published again.
-/

namespace Dacar.Cli

variable {κ : Type} {key : Tuple → κ}

def InBoxes (p : Bytes) (s : Store key) : Prop := p ∈ s .outbox ∨ p ∈ s .sent

instance (p : Bytes) (s : Store key) : Decidable (InBoxes p s) :=
  inferInstanceAs (Decidable (_ ∨ _))

/-- Nothing leaves the boxes, and the outbox only for the sent box. -/
structure Moves (s s' : Store key) : Prop where
  outbox : ∀ p ∈ s .outbox, InBoxes p s'
  sent : ∀ p ∈ s .sent, p ∈ s' .sent

theorem Moves.refl (s : Store key) : Moves s s := ⟨fun _ => .inl, fun _ hp => hp⟩

theorem Moves.inBoxes {s s' : Store key} {p : Bytes} (h : Moves s s') (hp : InBoxes p s) :
    InBoxes p s' :=
  hp.elim (h.outbox p) fun hs => .inr (h.sent p hs)

theorem Moves.trans {s s' s'' : Store key} (h : Moves s s') (h' : Moves s' s'') :
    Moves s s'' where
  outbox p hp := h'.inBoxes (h.outbox p hp)
  sent p hp := h'.sent p (h.sent p hp)

theorem Moves.of_eq {s s' : Store key} (ho : s' .outbox = s .outbox) (hs : s' .sent = s .sent) :
    Moves s s' where
  outbox _ hp := .inl (ho ▸ hp)
  sent _ hp := hs ▸ hp

/-! ## Appending what is missing -/

theorem mem_appendMissing {p : Bytes} {ps box : List Bytes} {changed : Bool} :
    p ∈ (appendMissing ps (box, changed)).1 ↔ p ∈ box ∨ p ∈ ps := by
  induction ps generalizing box changed with
  | nil => simp [appendMissing]
  | cons q ps ih =>
    rw [appendMissing]
    split_ifs with hq
    · rw [ih, List.mem_cons]
      constructor
      · exact Or.imp_right .inr
      · rintro (h | rfl | h)
        · exact .inl h
        · exact .inl hq
        · exact .inr h
    · rw [ih, List.mem_append, List.mem_singleton, List.mem_cons, or_assoc]

/-- Where nothing was appended the box is as it was. -/
theorem appendMissing_unchanged {ps box : List Bytes} {changed : Bool}
    (h : (appendMissing ps (box, changed)).2 = false) :
    changed = false ∧ (appendMissing ps (box, changed)).1 = box := by
  induction ps generalizing box changed with
  | nil => exact ⟨h, rfl⟩
  | cons q ps ih =>
    rw [appendMissing] at h ⊢
    split_ifs at h ⊢ with hq
    · exact ih h
    · exact absurd (ih h).1 (by decide)

/-! ## Recording a publication -/

@[simp] theorem mem_drained {p : Bytes} {accepted outbox : List Bytes} :
    p ∈ drained accepted outbox ↔ p ∈ outbox ∧ p ∉ accepted := by
  simp [drained]

theorem drainOutbox_run (accepted : List Bytes) (s : Store key) :
    ((drainOutbox accepted : Command key Unit).run s).result = .ok () ∧
      ((drainOutbox accepted : Command key Unit).run s).told = [] ∧
      ((drainOutbox accepted : Command key Unit).run s).store =
        Function.update s .outbox (drained accepted (s .outbox)) := by
  simp only [drainOutbox, loadOutbox, saveOutbox, Script.get_bind, Script.run_load]
  split_ifs with h
  · exact ⟨rfl, rfl, rfl⟩
  · refine ⟨rfl, rfl, ?_⟩
    have hall : drained accepted (s .outbox) = s .outbox :=
      List.filter_eq_self.mpr (List.length_filter_eq_length_iff.mp (not_not.mp h))
    rw [hall, Function.update_eq_self]
    rfl

theorem appendSent_run (accepted : List Bytes) (s : Store key) :
    ((appendSent accepted : Command key Unit).run s).result = .ok () ∧
      ((appendSent accepted : Command key Unit).run s).told = [] ∧
      ((appendSent accepted : Command key Unit).run s).store =
        Function.update s .sent (appendMissing accepted (s .sent, false)).1 := by
  simp only [appendSent, loadSent, saveSent, Script.get_bind, Script.run_load]
  split_ifs with h
  · exact ⟨rfl, rfl, rfl⟩
  · refine ⟨rfl, rfl, ?_⟩
    rw [(appendMissing_unchanged (Bool.eq_false_of_not_eq_true h)).2, Function.update_eq_self]
    rfl

/-- The store once these payloads are recorded as accepted. -/
def afterPublish (accepted : List Bytes) (recordToSent : Bool) (s : Store key) : Store key :=
  let s' := Function.update s .outbox (drained accepted (s .outbox))
  if recordToSent then Function.update s' .sent (appendMissing accepted (s' .sent, false)).1
  else s'

section AfterPublish

variable {accepted : List Bytes} {recordToSent : Bool} {s : Store key} {p : Bytes}

theorem mem_outbox_afterPublish :
    p ∈ afterPublish accepted recordToSent s .outbox ↔ p ∈ s .outbox ∧ p ∉ accepted := by
  unfold afterPublish
  cases recordToSent <;> simp

theorem mem_sent_afterPublish :
    p ∈ afterPublish accepted recordToSent s .sent ↔
      p ∈ s .sent ∨ recordToSent = true ∧ p ∈ accepted := by
  unfold afterPublish
  cases recordToSent <;> simp [mem_appendMissing]

theorem afterPublish_of_ne {r : Record} (ho : r ≠ .outbox) (hs : r ≠ .sent) :
    afterPublish accepted recordToSent s r = s r := by
  unfold afterPublish
  cases recordToSent <;> simp [ho, hs]

theorem afterPublish_nil : afterPublish [] recordToSent s = s := by
  unfold afterPublish
  cases recordToSent <;> simp [drained, appendMissing]

/-- The outbox is drained for the sent box, unless a payload is not recorded there. -/
theorem moves_afterPublish_iff :
    Moves s (afterPublish accepted recordToSent s) ↔
      (recordToSent = false → ∀ p ∈ accepted, p ∈ s .outbox → p ∈ s .sent) := by
  constructor
  · rintro h rfl p hp ho
    rcases h.outbox p ho with ho | hs
    · exact absurd hp (mem_outbox_afterPublish.mp ho).2
    · exact (mem_sent_afterPublish.mp hs).resolve_right (by simp)
  · intro h
    refine ⟨fun p hp => ?_, fun p hp => mem_sent_afterPublish.mpr (.inl hp)⟩
    by_cases ha : p ∈ accepted
    · right
      rw [mem_sent_afterPublish]
      cases recordToSent with
      | true => exact .inr ⟨rfl, ha⟩
      | false => exact .inl (h rfl p ha hp)
    · exact .inl (mem_outbox_afterPublish.mpr ⟨hp, ha⟩)

end AfterPublish

theorem recordPublish_run (payloads : List Bytes) (accepted : List Bool) (recordToSent : Bool)
    (s : Store key) :
    ((recordPublish payloads accepted recordToSent : Command key Unit).run s).result = .ok () ∧
      ((recordPublish payloads accepted recordToSent : Command key Unit).run s).told = [] ∧
      ((recordPublish payloads accepted recordToSent : Command key Unit).run s).store =
        afterPublish (acceptedOf payloads accepted) recordToSent s := by
  unfold recordPublish
  by_cases hempty : (acceptedOf payloads accepted).isEmpty = true
  · rw [if_pos hempty, List.isEmpty_iff.mp hempty, afterPublish_nil]
    exact ⟨rfl, rfl, rfl⟩
  · rw [if_neg hempty]
    obtain ⟨hdrain, htold, hdrained⟩ := drainOutbox_run (acceptedOf payloads accepted) s
    rw [Script.run_bind_ok s hdrain, Script.Outcome.andThen, htold, hdrained, afterPublish]
    cases recordToSent with
    | false => exact ⟨rfl, rfl, rfl⟩
    | true => exact appendSent_run _ _

theorem drainOutbox_points {accepted : List Bytes} {s : Store key} {P : Store key → Prop}
    (hs : P s)
    (hdrained : P (Function.update s .outbox (drained accepted (s .outbox)))) :
    ∀ pt ∈ (drainOutbox accepted : Command key Unit).points s, P pt.store := by
  simp only [drainOutbox, loadOutbox, saveOutbox, Script.get_bind, Script.forall_points_load]
  refine ⟨hs, ?_⟩
  split_ifs
  · exact (Script.forall_points_save s _ _ _).mpr
      ⟨hs, (Script.forall_points_done _ _).mpr hdrained⟩
  · exact (Script.forall_points_done s _).mpr hs

theorem appendSent_points {accepted : List Bytes} {s : Store key} {P : Store key → Prop}
    (hs : P s)
    (happended : P (Function.update s .sent (appendMissing accepted (s .sent, false)).1)) :
    ∀ pt ∈ (appendSent accepted : Command key Unit).points s, P pt.store := by
  simp only [appendSent, loadSent, saveSent, Script.get_bind, Script.forall_points_load]
  refine ⟨hs, ?_⟩
  split_ifs
  · exact (Script.forall_points_save s _ _ _).mpr
      ⟨hs, (Script.forall_points_done _ _).mpr happended⟩
  · exact (Script.forall_points_done s _).mpr hs

theorem inBoxes_afterPublish {accepted : List Bytes} {recordToSent : Bool} {s : Store key}
    {p : Bytes} (hp : InBoxes p s) (h : p ∈ accepted → p ∈ s .sent) :
    InBoxes p (afterPublish accepted recordToSent s) := by
  by_cases ha : p ∈ accepted
  · exact .inr (mem_sent_afterPublish.mpr (.inl (h ha)))
  · exact hp.imp (fun ho => mem_outbox_afterPublish.mpr ⟨ho, ha⟩)
      fun hs => mem_sent_afterPublish.mpr (.inl hs)

/-- While a publication is recorded a payload leaves both boxes exactly when it was accepted
and is yet to be appended to the sent box. -/
theorem recordPublish_keeps_iff {payloads : List Bytes} {accepted : List Bool}
    {recordToSent : Bool} {s : Store key} {p : Bytes} (hp : InBoxes p s) :
    (∀ pt ∈ (recordPublish payloads accepted recordToSent : Command key Unit).points s,
        InBoxes p pt.store) ↔ (p ∈ acceptedOf payloads accepted → p ∈ s .sent) := by
  unfold recordPublish
  generalize acceptedOf payloads accepted = acc
  by_cases hempty : acc.isEmpty = true
  · obtain rfl := List.isEmpty_iff.mp hempty
    rw [if_pos hempty]
    exact iff_of_true (by simpa [pure] using hp) (by simp)
  rw [if_neg hempty, Script.forall_points_bind]
  obtain ⟨hdrain, -, hdrained⟩ := drainOutbox_run acc s
  constructor
  · rintro ⟨-, h⟩ hacc
    have h := h () hdrain _ (Script.start_mem_points _ _)
    rw [Script.Point.after, hdrained] at h
    rcases h with ho | hs
    · exact absurd hacc (mem_drained.mp ho).2
    · exact hs
  · intro h
    have hd : InBoxes p (afterPublish acc false s) := inBoxes_afterPublish hp h
    have ha : InBoxes p (afterPublish acc true s) := inBoxes_afterPublish hp h
    refine ⟨drainOutbox_points hp hd, fun _ _ => ?_⟩
    rw [hdrained]
    cases recordToSent with
    | false => exact (Script.forall_points_done _ _).mpr hd
    | true => exact appendSent_points hd ha

theorem drainOutbox_spares {r : Record} (h : r ≠ .outbox) (accepted : List Bytes) :
    (drainOutbox accepted : Command key Unit).Spares r := by
  simp only [drainOutbox, loadOutbox, saveOutbox, Script.get_bind, Script.Spares]
  intro outbox
  split_ifs
  · exact ⟨h.symm, trivial⟩
  · trivial

theorem appendSent_spares {r : Record} (h : r ≠ .sent) (accepted : List Bytes) :
    (appendSent accepted : Command key Unit).Spares r := by
  simp only [appendSent, loadSent, saveSent, Script.get_bind, Script.Spares]
  intro sent
  split_ifs
  · exact ⟨h.symm, trivial⟩
  · trivial

theorem recordPublish_spares {r : Record} (ho : r ≠ .outbox) (hs : r ≠ .sent)
    (payloads : List Bytes) (accepted : List Bool) (recordToSent : Bool) :
    (recordPublish payloads accepted recordToSent : Command key Unit).Spares r := by
  unfold recordPublish
  by_cases hempty : (acceptedOf payloads accepted).isEmpty = true
  · rw [if_pos hempty]
    trivial
  · rw [if_neg hempty]
    refine (drainOutbox_spares ho _).bind fun _ => ?_
    split_ifs
    · exact appendSent_spares hs _
    · trivial

theorem recordPublish_silent (payloads : List Bytes) (accepted : List Bool)
    (recordToSent : Bool) :
    (recordPublish payloads accepted recordToSent : Command key Unit).Silent := by
  have hdrain : (drainOutbox (acceptedOf payloads accepted) : Command key Unit).Silent := by
    simp only [drainOutbox, loadOutbox, saveOutbox, Script.get_bind, Script.Silent]
    intro outbox
    split_ifs <;> trivial
  have happend : (appendSent (acceptedOf payloads accepted) : Command key Unit).Silent := by
    simp only [appendSent, loadSent, saveSent, Script.get_bind, Script.Silent]
    intro sent
    split_ifs <;> trivial
  unfold recordPublish
  dsimp only
  split_ifs
  · trivial
  · exact hdrain.bind fun _ => happend
  · exact hdrain.bind fun _ => trivial

/-! ## Sending one payload -/

/-- A leg that is reached accepts the payload. -/
def delivered : List Transport → Bool
  | [] => false
  | none :: _ => false
  | some accepted :: legs => accepted.head? = some true || delivered legs

theorem mem_acceptedOf_singleton {p q : Bytes} {accepted : List Bool} :
    p ∈ acceptedOf [q] accepted ↔ p = q ∧ accepted.head? = some true := by
  cases accepted with
  | nil => simp [acceptedOf]
  | cons b bs => cases b <;> simp [acceptedOf]

theorem moves_runLegs (p : Bytes) (legs : List Transport) (s : Store key) :
    Moves s ((runLegs p legs : Command key Unit).run s).store := by
  induction legs generalizing s with
  | nil => exact .refl s
  | cons leg legs ih =>
    cases leg with
    | none => exact .refl s
    | some accepted =>
      obtain ⟨hok, -, hstore⟩ := recordPublish_run [p] accepted true s
      rw [runLegs, Script.run_bind_ok s hok, Script.Outcome.andThen, hstore]
      exact (moves_afterPublish_iff.mpr (by simp)).trans (ih _)

/-- Once it is delivered the payload is in the sent box and no longer in the outbox. -/
theorem runLegs_boxes (p : Bytes) (legs : List Transport) (s : Store key) :
    (p ∈ ((runLegs p legs : Command key Unit).run s).store .outbox ↔
        p ∈ s .outbox ∧ delivered legs = false) ∧
      (p ∈ ((runLegs p legs : Command key Unit).run s).store .sent ↔
        p ∈ s .sent ∨ delivered legs = true) := by
  induction legs generalizing s with
  | nil => simp [runLegs, delivered]
  | cons leg legs ih =>
    cases leg with
    | none => simp [runLegs, delivered]
    | some accepted =>
      obtain ⟨hok, -, hstore⟩ := recordPublish_run [p] accepted true s
      obtain ⟨ho, hs⟩ := ih (afterPublish (acceptedOf [p] accepted) true s)
      rw [runLegs, Script.run_bind_ok s hok, Script.Outcome.andThen, hstore, ho, hs,
        mem_outbox_afterPublish, mem_sent_afterPublish, mem_acceptedOf_singleton]
      simp only [delivered, Bool.or_eq_false_iff, Bool.or_eq_true, decide_eq_true_eq,
        decide_eq_false_iff_not]
      tauto

theorem runLegs_told (p : Bytes) (legs : List Transport) (s : Store key) :
    ((runLegs p legs : Command key Unit).run s).told = [] := by
  induction legs generalizing s with
  | nil => rfl
  | cons leg legs ih =>
    cases leg with
    | none => rfl
    | some accepted =>
      obtain ⟨hok, htold, -⟩ := recordPublish_run [p] accepted true s
      rw [runLegs, Script.run_bind_ok s hok, Script.Outcome.andThen, htold, ih]
      rfl

theorem runLegs_spares {r : Record} (ho : r ≠ .outbox) (hs : r ≠ .sent) (p : Bytes)
    (legs : List Transport) : (runLegs p legs : Command key Unit).Spares r := by
  induction legs with
  | nil => trivial
  | cons leg legs ih =>
    cases leg with
    | none => trivial
    | some accepted => exact (recordPublish_spares ho hs [p] accepted true).bind fun _ => ih

/-- While a payload is sent no payload leaves both boxes, but itself on its way from one to
the other. -/
theorem runLegs_keeps_iff {p q : Bytes} {legs : List Transport} {s : Store key}
    (hq : InBoxes q s) :
    (∀ pt ∈ (runLegs p legs : Command key Unit).points s, InBoxes q pt.store) ↔
      (q = p → delivered legs = true → q ∈ s .sent) := by
  induction legs generalizing s with
  | nil => exact iff_of_true (by simpa [runLegs, pure] using hq) (by simp [delivered])
  | cons leg legs ih =>
    cases leg with
    | none => exact iff_of_true (by simpa [runLegs, Script.raise] using hq) (by simp [delivered])
    | some accepted =>
      obtain ⟨hok, -, hstore⟩ := recordPublish_run [p] accepted true s
      have hmoved : InBoxes q (afterPublish (acceptedOf [p] accepted) true s) :=
        (moves_afterPublish_iff.mpr (by simp)).inBoxes hq
      rw [runLegs, Script.forall_points_bind, recordPublish_keeps_iff hq, hstore]
      have hlater : (∀ b : Unit, ((recordPublish [p] accepted true : Command key Unit).run
          s).result = .ok b → ∀ pt ∈ (runLegs p legs : Command key Unit).points
            (afterPublish (acceptedOf [p] accepted) true s), InBoxes q pt.store) ↔
          (q = p → delivered legs = true → q ∈ s .sent ∨ q ∈ acceptedOf [p] accepted) := by
        have hsent : q ∈ afterPublish (acceptedOf [p] accepted) true s .sent ↔
            q ∈ s .sent ∨ q ∈ acceptedOf [p] accepted :=
          mem_sent_afterPublish.trans (by simp)
        rw [hok, ← hsent, ← ih hmoved]
        exact ⟨fun h => h () rfl, fun h _ _ => h⟩
      refine (and_congr_right' hlater).trans ?_
      simp only [delivered, mem_acceptedOf_singleton, Bool.or_eq_true, decide_eq_true_eq]
      tauto

end Dacar.Cli
