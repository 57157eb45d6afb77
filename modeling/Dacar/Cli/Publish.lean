import Dacar.Cli.Boxes

/-!
# What a publication does to the store

`publish` and `push` collect payloads, send them and record the ones that were accepted.
-/

namespace Dacar.Cli

variable {κ : Type} {key : Tuple → κ}

/-- The command raises before anything is sent. -/
def PublishArgs.refused (a : PublishArgs) : Bool :=
  !a.files.isEmpty && (a.outbox || a.useSent || a.all) || a.files.any List.isEmpty

/-- The payloads of all sources. -/
def PublishArgs.sources (a : PublishArgs) (s : Store key) : List Bytes :=
  (if a.useOutbox then s .outbox else []) ++ (if a.useSent then s .sent else []) ++ a.files

/-- The payloads that the transport accepts when it is given these. -/
def PublishArgs.acceptedAmong (a : PublishArgs) (payloads : List Bytes) : List Bytes :=
  match a.transport with
  | none => []
  | some accepted => acceptedOf (appendMissing payloads ([], false)).1 accepted

/-- The payloads that the transport accepts. -/
def PublishArgs.accepted (a : PublishArgs) (s : Store key) : List Bytes :=
  if a.refused then [] else a.acceptedAmong (a.sources s)

variable {a : PublishArgs} {s : Store key}

/-- A send ends at once with nothing accepted, or records. -/
theorem send_cases (a : PublishArgs) (payloads : List Bytes) :
    (∃ result, (send a payloads : Command key Unit) = .done result ∧
        a.acceptedAmong payloads = []) ∨
      ∃ ps oks, (send a payloads : Command key Unit) = recordPublish ps oks a.recordToSent ∧
        a.acceptedAmong payloads = acceptedOf ps oks := by
  unfold send PublishArgs.acceptedAmong
  generalize (appendMissing payloads ([], false)).1 = deduped
  cases deduped with
  | nil =>
    refine .inl ⟨.ok (), rfl, ?_⟩
    cases a.transport <;> rfl
  | cons p ps =>
    cases a.transport with
    | none => exact .inl ⟨.error .network, rfl, rfl⟩
    | some accepted => exact .inr ⟨p :: ps, accepted, rfl, rfl⟩

theorem send_run (payloads : List Bytes) :
    ((send a payloads : Command key Unit).run s).told = [] ∧
      ((send a payloads : Command key Unit).run s).store =
        afterPublish (a.acceptedAmong payloads) a.recordToSent s := by
  rcases send_cases a payloads with ⟨result, hsend, hacc⟩ | ⟨ps, oks, hsend, hacc⟩
  · rw [hsend, hacc, afterPublish_nil]
    exact ⟨rfl, rfl⟩
  · rw [hsend, hacc]
    exact (recordPublish_run ps oks a.recordToSent s).2

theorem send_keeps_iff {payloads : List Bytes} {p : Bytes} (hp : InBoxes p s) :
    (∀ pt ∈ (send a payloads : Command key Unit).points s, InBoxes p pt.store) ↔
      (p ∈ a.acceptedAmong payloads → p ∈ s .sent) := by
  rcases send_cases a payloads with ⟨result, hsend, hacc⟩ | ⟨ps, oks, hsend, hacc⟩
  · rw [hsend, hacc]
    exact iff_of_true ((Script.forall_points_done _ _).mpr hp) (fun h => nomatch h)
  · rw [hsend, hacc]
    exact recordPublish_keeps_iff hp

theorem send_spares {r : Record} (ho : r ≠ .outbox) (hs : r ≠ .sent) (payloads : List Bytes) :
    (send a payloads : Command key Unit).Spares r := by
  rcases send_cases a payloads with ⟨result, hsend, -⟩ | ⟨ps, oks, hsend, -⟩
  · rw [hsend]
    trivial
  · rw [hsend]
    exact recordPublish_spares ho hs _ _ _

theorem send_silent (payloads : List Bytes) : (send a payloads : Command key Unit).Silent := by
  rcases send_cases a payloads with ⟨result, hsend, -⟩ | ⟨ps, oks, hsend, -⟩
  · rw [hsend]
    trivial
  · rw [hsend]
    exact recordPublish_silent _ _ _

/-- A publication loads its sources; then it raises, sends nothing or records. -/
theorem publish_eq (a : PublishArgs) : (publish a : Command key Unit) =
    if !a.files.isEmpty && (a.outbox || a.useSent || a.all) then .raise .usage
    else
      (if a.useOutbox then loadOutbox else pure []) >>= fun outbox =>
      (if a.useSent then loadSent else pure []) >>= fun sent =>
      if a.files.any List.isEmpty then .raise .emptyPayload
      else send a (outbox ++ sent ++ a.files) := rfl

theorem publish_spares {r : Record} (ho : r ≠ .outbox) (hs : r ≠ .sent) (a : PublishArgs) :
    (publish a : Command key Unit).Spares r := by
  rw [publish_eq]
  by_cases husage : (!a.files.isEmpty && (a.outbox || a.useSent || a.all)) = true
  · rw [if_pos husage]
    trivial
  rw [if_neg husage]
  refine Script.Spares.bind ?_ fun outbox => Script.Spares.bind ?_ fun sent => ?_
  · split_ifs
    · exact fun _ => trivial
    · trivial
  · split_ifs
    · exact fun _ => trivial
    · trivial
  · split_ifs
    · trivial
    · exact send_spares ho hs _

theorem publish_silent (a : PublishArgs) :
    (publish a : Command key Unit).Silent := by
  rw [publish_eq]
  by_cases husage : (!a.files.isEmpty && (a.outbox || a.useSent || a.all)) = true
  · rw [if_pos husage]
    trivial
  rw [if_neg husage]
  refine Script.Silent.bind ?_ fun outbox => Script.Silent.bind ?_ fun sent => ?_
  · split_ifs
    · exact fun _ => trivial
    · trivial
  · split_ifs
    · exact fun _ => trivial
    · trivial
  · split_ifs
    · trivial
    · exact send_silent _

theorem publish_run (a : PublishArgs) (s : Store key) :
    ((publish a : Command key Unit).run s).told = [] ∧
      ((publish a : Command key Unit).run s).store =
        afterPublish (a.accepted s) a.recordToSent s := by
  rw [publish_eq]
  unfold PublishArgs.accepted PublishArgs.refused PublishArgs.sources
  cases !a.files.isEmpty && (a.outbox || a.useSent || a.all) with
  | true => exact ⟨rfl, afterPublish_nil.symm⟩
  | false =>
    cases a.files.any List.isEmpty with
    | true => cases a.useOutbox <;> cases a.useSent <;> exact ⟨rfl, afterPublish_nil.symm⟩
    | false => cases a.useOutbox <;> cases a.useSent <;> exact send_run _

theorem publish_keeps_iff {p : Bytes} (hp : InBoxes p s) :
    (∀ pt ∈ (publish a : Command key Unit).points s, InBoxes p pt.store) ↔
      (p ∈ a.accepted s → p ∈ s .sent) := by
  rw [publish_eq]
  unfold PublishArgs.accepted PublishArgs.refused PublishArgs.sources
  cases !a.files.isEmpty && (a.outbox || a.useSent || a.all) with
  | true =>
    exact iff_of_true ((Script.forall_points_done _ _).mpr hp) (fun h => nomatch h)
  | false =>
    cases a.files.any List.isEmpty with
    | true =>
      refine iff_of_true ?_ (fun h => nomatch h)
      cases a.useOutbox <;> cases a.useSent <;>
        simp [loadOutbox, loadSent, Script.raise, hp]
    | false =>
      cases a.useOutbox <;> cases a.useSent <;>
        refine Iff.trans ?_ (send_keeps_iff hp) <;> simp [loadOutbox, loadSent, hp]

end Dacar.Cli
