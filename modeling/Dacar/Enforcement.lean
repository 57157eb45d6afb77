import Dacar.Cpp.Engine
import Dacar.LabelMatching
import Dacar.LinkPush

/-!
# What an issued operation enforces

An operation that an anchor issued decides about the requests it is made for, on every node that
it has been pushed to, whatever else the node was sent before and after.
-/

namespace Dacar

open Engine LossyLink Relation VoteSearch

variable {κ : Type} [DecidableEq κ] {key : Tuple → κ}

/-! ## The votes of an anchor -/

namespace Engine

variable {e : Engine key} {hypotheses : List Hypothesis} {t : Tuple} {h : Hypothesis}

/-- An active tuple denies the request to the grantee. -/
def Denied (e : Engine key) (grantee : Hash) (hypotheses : List Hypothesis) : Prop :=
  ∃ t ∈ e.state.activeTuples, t.grantee = grantee ∧
    ∃ h ∈ hypotheses, Carries t h.denyRelationHash h

theorem evaluateHashes_of_allow (hcap : 1 ≤ e.options.maxVisited)
    (hroot : e.config.isRootAnchor t.issuer = true) (ht : t ∈ e.state.activeTuples)
    (hh : h ∈ hypotheses) (hc : Carries t h.allowRelationHash h)
    (hdeny : ¬ e.Denied t.grantee hypotheses) : e.evaluateHashes t.grantee hypotheses = true := by
  have hnone (i : Hash) : (Sign.deny, i) ∉ e.votesOf t.grantee hypotheses := by
    intro hi
    obtain ⟨t', ht', hg, -, hyp, hhyp, hcarries⟩ := exists_of_deny_vote hi
    exact hdeny ⟨t', ht', hg, hyp, hhyp, hcarries⟩
  have hallow : (Sign.allow, t.issuer) ∈ e.votesOf t.grantee hypotheses := by
    refine allow_vote_of_carries ht hh hc fun heq => ?_
    exact hdeny ⟨t, ht, rfl, h, hh, heq, hc.2⟩
  rw [evaluateHashes_eq, decide_eq_true_eq]
  exact run_allow_of_root hcap hallow hroot hnone

theorem evaluateHashes_of_deny (hcap : 1 ≤ e.options.maxVisited)
    (hroot : e.config.isRootAnchor t.issuer = true) (ht : t ∈ e.state.activeTuples)
    (hh : h ∈ hypotheses) (hc : Carries t h.denyRelationHash h) :
    e.evaluateHashes t.grantee hypotheses = false := by
  have hdeny : (Sign.deny, t.issuer) ∈ e.votesOf t.grantee hypotheses :=
    deny_vote_of_carries ht hh hc
  have hrun : (e.search true t.grantee hypotheses).1 = .deny :=
    run_deny_of_root hcap hdeny hroot
  rw [evaluateHashes_eq, decide_eq_false_iff_not, hrun]
  decide

variable (hmac16 : Hmac16)

/-- The request under every salt of the node. -/
def requestOf (config : Config) (objectId relation : String) : List Hypothesis :=
  config.hashers.map (hypothesis hmac16 objectId relation)

/-- What the engine of either kind answers. -/
def Answers (e : Engine key) (objectId relation : String) (grantee : Hash) (answer : Bool) :
    Prop :=
  e.evaluate hmac16 objectId relation grantee = answer ∧
    Cpp.Engine.evaluateHashes hmac16 e.config e.options e.state.activeTuples grantee
      ((requestOf hmac16 e.config objectId relation).map Cpp.Engine.ofHashes) = answer

variable {hmac16}

theorem answers_of_evaluate {objectId relation : String} {grantee : Hash} {answer : Bool}
    (h : e.evaluateHashes grantee (requestOf hmac16 e.config objectId relation) = answer) :
    e.Answers hmac16 objectId relation grantee answer := by
  refine ⟨h, Eq.trans (Cpp.Engine.evaluateHashes_ofHashes _ _ _ _ fun hyp hmem => ?_) h⟩
  obtain ⟨hasher, -, rfl⟩ := List.mem_map.mp hmem
  exact ⟨rfl, rfl⟩

end Engine

/-! ## What an operation that a state holds decides -/

/-- A revoke of the tuple is recorded that is not older. -/
def Revoked (s : StateVector key) (op : Operation) : Prop :=
  ∃ ts, s.timestamp .revoke op.tuple = some ts ∧ op.hlc ≤ ts

/-- A grant of the tuple is recorded that is later. -/
def Regranted (s : StateVector key) (op : Operation) : Prop :=
  ∃ ts, s.timestamp .grant op.tuple = some ts ∧ op.hlc < ts

/-- An operation on a tuple that was made from plaintext under a salt of the node. -/
structure Concerns (hmac16 : Hmac16) (config : Config) (op : Operation)
    (relation request : String) : Prop where
  anchor : config.isRootAnchor op.tuple.issuer = true
  tuple : ∃ hasher ∈ config.hashers, ∃ pattern, MatchesLabels pattern request ∧
    Tuple.fromPlaintext hmac16 pattern relation op.tuple.grantee op.tuple.issuer hasher =
      .ok op.tuple

/-- No other active tuple has the key of this one. -/
def OwnsKey (s : StateVector key) (t : Tuple) : Prop :=
  ∀ t' ∈ s.activeTuples, key t' = key t → t' = t

/-- What an operation by an anchor decides on a node with this state. -/
structure Enforced (hmac16 : Hmac16) (s : StateVector key) (op : Operation) : Prop where
  allow : op.action = .grant → OwnsKey s op.tuple →
    ∀ (config : Config) (options : Options) (relation request : String),
    1 ≤ options.maxVisited → Concerns hmac16 config op relation request →
    Answers hmac16 (⟨config, s, options⟩ : Engine key) request relation op.tuple.grantee true ∨
      Revoked s op ∨ Denied (⟨config, s, options⟩ : Engine key) op.tuple.grantee
        (requestOf hmac16 config request relation)
  /-- The relation of a deny has a minus before it. -/
  deny : op.action = .grant → OwnsKey s op.tuple →
    ∀ (config : Config) (options : Options) (relation request : String),
    1 ≤ options.maxVisited → Concerns hmac16 config op ("-" ++ relation) request →
    Answers hmac16 (⟨config, s, options⟩ : Engine key) request relation op.tuple.grantee false ∨
      Revoked s op
  revoke : op.action = .revoke → op.tuple ∉ s.activeTuples ∨ Regranted s op

theorem mem_activeTuples_of_isActive {s : StateVector key} {t : Tuple} (ht : OwnsKey s t)
    (h : s.isActive (key t) = true) : t ∈ s.activeTuples := by
  obtain ⟨e, he, hactive⟩ := (Option.any_eq_true _ _).mp h
  have hmem : e.tuple ∈ s.activeTuples := s.mem_activeTuples.mpr ⟨key t, e, he, hactive, rfl⟩
  rwa [ht e.tuple hmem (s.keyed (key t) e (s.entries.mem_entries_iff.mpr he))] at hmem

theorem isActive_of_mem_activeTuples {s : StateVector key} {t : Tuple} (h : t ∈ s.activeTuples) :
    s.isActive (key t) = true := by
  obtain ⟨k, e, he, hactive, rfl⟩ := s.mem_activeTuples.mp h
  obtain rfl := s.keyed k e (s.entries.mem_entries_iff.mpr he)
  exact (Option.any_eq_true _ _).mpr ⟨e, he, hactive⟩

/-- A grant that is held is active, or was revoked. -/
theorem active_or_revoked {s : StateVector key} {op : Operation} (h : Cli.Holds s op)
    (haction : op.action = .grant) (ht : OwnsKey s op.tuple) :
    op.tuple ∈ s.activeTuples ∨ Revoked s op := by
  obtain ⟨added, hadded, hle⟩ := h
  rw [haction] at hadded
  by_cases hactive : s.isActive (key op.tuple) = true
  · exact .inl (mem_activeTuples_of_isActive ht hactive)
  · rw [StateVector.isActive_iff] at hactive
    push Not at hactive
    obtain ⟨removed, hremoved, hlater⟩ := hactive added hadded
    exact .inr ⟨removed, hremoved, hle.trans hlater⟩

/-- Of a tuple whose revoke is held nothing is active, except by a later grant. -/
theorem inactive_or_regranted {s : StateVector key} {op : Operation} (h : Cli.Holds s op)
    (haction : op.action = .revoke) : op.tuple ∉ s.activeTuples ∨ Regranted s op := by
  obtain ⟨removed, hremoved, hle⟩ := h
  rw [haction] at hremoved
  by_cases hmem : op.tuple ∈ s.activeTuples
  · obtain ⟨added, hadded, hlast⟩ :=
      (StateVector.isActive_iff s op.tuple).mp (isActive_of_mem_activeTuples hmem)
    exact .inr ⟨added, hadded, hle.trans_lt (hlast removed hremoved)⟩
  · exact .inl hmem

theorem enforced_of_holds (hmac16 : Hmac16) {s : StateVector key} {op : Operation}
    (h : Cli.Holds s op) : Enforced hmac16 s op where
  allow haction howns config options relation request hcap hop := by
    rcases active_or_revoked h haction howns with hactive | hrevoked
    · by_cases hdenied : Denied (⟨config, s, options⟩ : Engine key) op.tuple.grantee
        (requestOf hmac16 config request relation)
      · exact .inr (.inr hdenied)
      · obtain ⟨hasher, hmem, pattern, hmatch, ht⟩ := hop.tuple
        exact .inl (answers_of_evaluate (evaluateHashes_of_allow hcap hop.anchor hactive
          (List.mem_map_of_mem hmem) (carries_of_matches ht hmatch relation) hdenied))
    · exact .inr (.inl hrevoked)
  deny haction howns config options relation request hcap hop := by
    rcases active_or_revoked h haction howns with hactive | hrevoked
    · obtain ⟨hasher, hmem, pattern, hmatch, ht⟩ := hop.tuple
      exact .inl (answers_of_evaluate (evaluateHashes_of_deny hcap hop.anchor hactive
        (List.mem_map_of_mem hmem) (carries_of_matches ht hmatch relation)))
    · exact .inr hrevoked
  revoke haction := inactive_or_regranted h haction

/-! ## On every node that it was pushed to -/

section Pushed

variable {σ : Type} {pusher : Pusher}

/-- Whatever gets lost on the links, and whatever the pusher and others do before and after: an
operation whose payload a push took out of the outbox is enforced at the node. -/
def PushEnforced (hmac16 : Hmac16) (E : DeltaEndpoint key σ) (pusher : Pusher) : Prop :=
  ∀ S₀ S : PushSystem key σ, S₀.left = [] → ReflTransGen (PushStep E pusher) S₀ S →
    ∀ p ∈ S.left, ∀ op, E.operation p = some op → Enforced hmac16 (E.state S.node) op

theorem pushEnforced (hmac16 : Hmac16) {E : DeltaEndpoint key σ} (h : PushSafe E pusher) :
    PushEnforced hmac16 E pusher := by
  intro S₀ S h₀ hrun p hp op hop
  obtain ⟨op', hdelivers, hholds⟩ := h S₀ S h₀ hrun p hp
  have hsame : op' = op := by
    rcases hdelivers with hone | ⟨hnone, -⟩
    · exact Option.some.inj (hone.symm.trans hop)
    · rw [hnone] at hop
      cases hop
  exact enforced_of_holds hmac16 (hsame ▸ hholds)

/-- A grant by an anchor is followed on every node that a push was acknowledged by, of any port,
until the tuple is revoked or something denies the request; a deny by an anchor until it is
revoked; and a revoke takes the tuple away until it is granted anew. -/
theorem left_outbox_enforced {p : Platform} {w : World} {p' : Python.Platform} {w' : Python.World}
    {τ : Type} {u : Cpp.Cursor τ} {At : τ → List WireValue → Prop} {w'' : Cpp.World}
    (hw : ∀ n issuer, (w n).resolver issuer ≠ .throws)
    (hbin : ∀ data items b, p.msgPackDecode data = .ok (.array items) → .bytes b ∈ items →
      b.length < data.length)
    (hw' : Python.Answers w')
    (hbin' : ∀ data items b, p'.unpackb data = .ok (.array items) → .bin b ∈ items →
      b.length < data.length)
    (hu : u.Lawful At) (hf : u.Framed At) (hw'' : w''.Answers) (ed25519 : Ed25519)
    (packAck : ℕ → Bytes) (hread : pusher.ReadsAcks packAck) (hmac16 : Hmac16) :
    PushEnforced hmac16 ((javascriptPort p w : Port key).endpoint packAck) pusher ∧
      PushEnforced hmac16 ((Python.port p' w' : Port key).endpoint packAck) pusher ∧
      PushEnforced hmac16 (Cpp.endpoint u ed25519 w'' packAck : DeltaEndpoint key _) pusher := by
  refine ⟨pushEnforced hmac16 (pushSafe ?_ hread), pushEnforced hmac16 (pushSafe ?_ hread),
    pushEnforced hmac16 (pushSafe ?_ (Cpp.endpoint_readsAcks hread))⟩
  · exact Port.endpoint_lawful (Port.isolates (javascript_lawful hw hbin)) packAck
  · exact Port.endpoint_lawful (Port.isolates (Python.lawful hw' hbin')) packAck
  · exact Cpp.endpoint_lawful hu hf hw'' packAck

end Pushed

/-! ## The grant of everything -/

section GrantAll

/-- An HMAC under which the grant is one of `read` on everything. -/
def readHmac16 : Hmac16 := fun _ message =>
  if message = utf8 "read" then Blob.fill 16 0 else Blob.fill 16 7

def issuerAnchored : Config where
  rootTrustAnchors := [grantedTuple.issuer]
  primarySalt := Blob.fill 32 0
  legacySalts := []
  authoritativeIdentity := none
  anchors_ne := List.cons_ne_nil _ _
  legacy_le := Nat.zero_le _

def grantAll : Operation where
  tuple := grantedTuple
  action := .grant
  hlc := 65536
  signatures := [Blob.fill 64 9]
  hlc_le := Nat.le_of_ble_eq_true rfl

/-- The state of the node that the grant was pushed to. -/
def pushedState : StateVector Tuple.key :=
  grantNode.state (pushedTwice grantNode Python.blankReceiver).node

theorem grantAll_concerns : Concerns readHmac16 issuerAnchored grantAll "read" "door" where
  anchor := by decide
  tuple := by
    refine ⟨⟨Blob.fill 32 0⟩, List.mem_cons_self, "*", by decide +kernel, ?_⟩
    rfl

theorem left_outbox_enforced_grant :
    Answers readHmac16 (⟨issuerAnchored, pushedState, {}⟩ : Engine Tuple.key) "door" "read"
        grantAll.tuple.grantee true ∨
      Revoked pushedState grantAll ∨
      Denied (⟨issuerAnchored, pushedState, {}⟩ : Engine Tuple.key) grantAll.tuple.grantee
        (requestOf readHmac16 issuerAnchored "door" "read") := by
  have hleft : (pushedTwice grantNode Python.blankReceiver).left = [grantPayload] := by
    decide +kernel
  obtain ⟨hjs, -, -⟩ := @left_outbox_enforced _ _ Tuple.key (.javascript readAck)
    oneGrantPlatform onlyKeyWorld _ _ _ _ _ _
    (fun _ _ h => by cases h) oneGrant_shorter Python.onlyKeyWorld_answers grantWire_shorter
    Cpp.splitReader_lawful Cpp.splitReader_framed Cpp.onlyKeyWorld_answers onlyKey packAck
    readAck_reads readHmac16
  have henforced : Enforced readHmac16 pushedState grantAll :=
    hjs (grantQueued Python.blankReceiver) (pushedTwice grantNode Python.blankReceiver) rfl
      (.tail (.single (.push _ _ _)) (.push _ _ _)) grantPayload
      (hleft.symm ▸ List.mem_singleton_self grantPayload) grantAll (by decide +kernel)
  have howns : OwnsKey pushedState grantAll.tuple := fun _ _ h => Tuple.key_injective h
  exact henforced.allow rfl howns issuerAnchored {} "read" "door" (by decide) grantAll_concerns

end GrantAll

end Dacar
