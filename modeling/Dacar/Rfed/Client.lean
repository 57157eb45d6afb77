import Dacar.Cpp.Cursor
import Dacar.Rfed.Compact

/-!
# The channel client

One client lives as long as its node.  It keeps the channels it was ever asked about, by name,
and what the node answered to the last subscription, by channel hash.
-/

namespace Dacar.Rfed

open Std (TreeMap)

/-! ## Channels -/

structure Channel where
  identity : Identity
  channelHash : Hash

/-- What a channel is derived with. -/
structure ChannelLibrary where
  sha256 : Bytes → Blob 32
  /-- `load_private_key` into a fresh identity. -/
  loadPrivateKey : Bytes → Option Identity

/-- The scalar as the curve wants it. -/
def clamp (scalar : Bytes) : Bytes :=
  (scalar.modify 0 fun b => b &&& 0xF8).modify 31 fun b => (b &&& 0x7F) ||| 0x40

def deriveChannel (lib : ChannelLibrary) (name : Bytes) : Except String Channel :=
  if name.isEmpty then .error "rfed channel name must not be empty"
  else
    let seed := (lib.sha256 name).val
    match lib.loadPrivateKey (clamp seed ++ seed) with
    | none => .error "rfed channel identity could not load its seed"
    | some identity => .ok { identity := identity, channelHash := identity.hash }

/-! ## The answer to a subscription -/

structure SubscribeResult where
  ok : Bool := false
  hasStampCost : Bool := false
  stampCost : ℕ := 0
  deriving DecidableEq

section Decode

variable {σ : Type} (u : Cpp.Cursor σ)

/-- The cost after a positive answer; it is cast to a `size_t` of so many bits. -/
def readStampCost (sizeBits : ℕ) (s : σ) : SubscribeResult :=
  if u.isNil s then { ok := true }
  else if u.isUInt s then
    match (u.deserializeUInt s).1 with
    | some (cost + 1) =>
      { ok := true, hasStampCost := true, stampCost := (cost + 1) % 2 ^ sizeBits }
    | _ => { ok := true }
  else { ok := true }

def decodeSubscribeResponse (sizeBits : ℕ) (response : Bytes) : SubscribeResult :=
  if response.isEmpty then {}
  else
    match u.feed response with
    | none => {}
    | some s =>
      if u.isBool s then { ok := (u.unpackBool s).1 }
      else if u.isArray s then
        let size := u.unpackArraySize s
        let flag := if size.1 ≥ 1 && u.isBool size.2 then u.unpackBool size.2 else (false, size.2)
        if flag.1 && decide (size.1 ≥ 2) then readStampCost u sizeBits flag.2
        else { ok := flag.1 }
      else {}

end Decode

/-! ## The client -/

/-- A fanout message, as the callback gets it. -/
structure Fanout where
  channelName : Bytes
  channelIdentity : Identity
  innerBlob : Bytes

/-- The costs are kept under the hex digits of the channel hash, which rename its bytes one to
one. -/
structure RFedClient where
  channels : TreeMap Bytes Channel compare
  hasStampCost : TreeMap Bytes Bool compare
  stampCosts : TreeMap Bytes ℕ compare
  /-- Whether a callback is set. -/
  listening : Bool

def RFedClient.blank : RFedClient := ⟨∅, ∅, ∅, false⟩

/-- What becomes of a request to a node. -/
inductive Reply
  | unknownNode
  | noLink (error : String)
  /-- Empty when the request fails or times out. -/
  | response (bytes : Bytes)

section Client

variable (lib : ChannelLibrary)

namespace RFedClient

def channel (name : Bytes) (c : RFedClient) : Except String Channel × RFedClient :=
  match c.channels[name]? with
  | some found => (.ok found, c)
  | none =>
    match deriveChannel lib name with
    | .error e => (.error e, c)
    | .ok derived => (.ok derived, { c with channels := c.channels.insertIfNew name derived })

/-- `stamp_cost`; `at` throws on a key that is missing. -/
def stampCost (name : Bytes) (c : RFedClient) : Except String (Option ℕ) :=
  match c.channels[name]? with
  | none => .ok none
  | some entry =>
    match c.hasStampCost[entry.channelHash.val]? with
    | some true =>
      match c.stampCosts[entry.channelHash.val]? with
      | some cost => .ok (some cost)
      | none => .error "map::at"
    | _ => .ok none

/-- The channel, and the answer of the node about it. -/
def request (nodeHex : String) (name : Bytes) (reply : Reply) (c : RFedClient) :
    Except String (Channel × Bytes) × RFedClient :=
  match c.channel lib name with
  | (.error e, c) => (.error e, c)
  | (.ok entry, c) =>
    match reply with
    | .unknownNode =>
      (.error s!"rfed node identity unknown for {nodeHex}; wait for its announce", c)
    | .noLink e => (.error e, c)
    | .response bytes => (.ok (entry, bytes), c)

end RFedClient

variable {σ : Type} (u : Cpp.Cursor σ) (sizeBits : ℕ)

namespace RFedClient

def subscribe (nodeHex : String) (name : Bytes) (reply : Reply) (c : RFedClient) :
    Except String SubscribeResult × RFedClient :=
  match c.request lib nodeHex name reply with
  | (.error e, c) => (.error e, c)
  | (.ok (entry, response), c) =>
    let decoded := decodeSubscribeResponse u sizeBits response
    if decoded.ok then
      (.ok decoded, { c with
        hasStampCost := c.hasStampCost.insert entry.channelHash.val decoded.hasStampCost
        stampCosts := c.stampCosts.insert entry.channelHash.val decoded.stampCost })
    else (.ok decoded, c)

def unsubscribe (nodeHex : String) (name : Bytes) (reply : Reply) (c : RFedClient) :
    Except String SubscribeResult × RFedClient :=
  match c.request lib nodeHex name reply with
  | (.error e, c) => (.error e, c)
  | (.ok (_, response), c) => (.ok (decodeSubscribeResponse u sizeBits response), c)

def pull (nodeHex : String) (name : Bytes) (reply : Reply) (c : RFedClient) :
    Except String Cpp.Pulled × RFedClient :=
  match c.request lib nodeHex name reply with
  | (.error e, c) => (.error e, c)
  | (.ok (_, response), c) => (.ok (Cpp.decodePage u.toStreamUnpacker response), c)

def listenRaw (c : RFedClient) : RFedClient := { c with listening := true }

/-- `_handle_fanout`: the first channel in the order of names that has the hash. -/
def handleFanout (data : Bytes) (c : RFedClient) : Option Fanout :=
  match parseFanoutPayload data with
  | .error _ => none
  | .ok parsed =>
    match c.channels.toList.find? fun e => e.2.channelHash.val == parsed.channelHash with
    | none => none
    | some (name, entry) =>
      if c.listening then some ⟨name, entry.identity, parsed.innerBlob⟩ else none

end RFedClient

/-- The first entry of a map that a test holds of: no entry with a lesser key has it. -/
theorem find?_toList_eq_some {κ ν : Type} [Ord κ] [Std.TransOrd κ] [Std.LawfulEqOrd κ]
    {t : TreeMap κ ν compare} {p : κ × ν → Bool} {e : κ × ν} :
    t.toList.find? p = some e ↔ t[e.1]? = some e.2 ∧ p e = true ∧
      ∀ e' : κ × ν, compare e'.1 e.1 = .lt → t[e'.1]? = some e'.2 → p e' = false := by
  have hordered : t.toList.Pairwise fun a b => compare a.1 b.1 = .lt :=
    TreeMap.ordered_keys_toList
  rw [List.find?_eq_some_iff_append]
  constructor
  · rintro ⟨hp, as, bs, heq, has⟩
    have hmem : e ∈ t.toList := heq ▸ List.mem_append_right _ List.mem_cons_self
    refine ⟨TreeMap.mem_toList_iff_getElem?_eq_some.mp hmem, hp, fun e' hlt hget => ?_⟩
    have hmem' : e' ∈ t.toList := TreeMap.mem_toList_iff_getElem?_eq_some.mpr hget
    rw [heq] at hmem' hordered
    have hafter := (List.pairwise_cons.mp (List.pairwise_append.mp hordered).2.1).1
    rcases List.mem_append.mp hmem' with hbefore | hrest
    · simpa using has e' hbefore
    · rcases List.mem_cons.mp hrest with rfl | hrest
      · have hself : compare e'.1 e'.1 = .eq := Std.ReflCmp.compare_self
        rw [hself] at hlt
        cases hlt
      · have hgt := Std.OrientedCmp.gt_of_lt (hafter e' hrest)
        rw [hlt] at hgt
        cases hgt
  · rintro ⟨hget, hp, hleast⟩
    obtain ⟨as, bs, heq⟩ := List.append_of_mem (TreeMap.mem_toList_iff_getElem?_eq_some.mpr hget)
    refine ⟨hp, as, bs, heq, fun a ha => ?_⟩
    have hlt : compare a.1 e.1 = .lt := by
      rw [heq] at hordered
      exact (List.pairwise_append.mp hordered).2.2 a ha e List.mem_cons_self
    have hmem : a ∈ t.toList := heq ▸ List.mem_append_left _ ha
    rw [hleast a hlt (TreeMap.mem_toList_iff_getElem?_eq_some.mp hmem)]
    rfl

/-! ## Runs -/

/-- What is asked of a client. -/
inductive Call
  | channel (name : Bytes)
  | subscribe (nodeHex : String) (name : Bytes) (reply : Reply)
  | unsubscribe (nodeHex : String) (name : Bytes) (reply : Reply)
  | pull (nodeHex : String) (name : Bytes) (reply : Reply)
  | listenRaw

/-- The channel that a call is about. -/
def Call.name : Call → Option Bytes
  | .channel name => some name
  | .subscribe _ name _ => some name
  | .unsubscribe _ name _ => some name
  | .pull _ name _ => some name
  | .listenRaw => none

def perform (c : RFedClient) : Call → RFedClient
  | .channel name => (c.channel lib name).2
  | .subscribe nodeHex name reply => (c.subscribe lib u sizeBits nodeHex name reply).2
  | .unsubscribe nodeHex name reply => (c.unsubscribe lib u sizeBits nodeHex name reply).2
  | .pull nodeHex name reply => (c.pull lib u nodeHex name reply).2
  | .listenRaw => c.listenRaw

def performAll (calls : List Call) : RFedClient := calls.foldl (perform lib u sizeBits) .blank

/-! ## What the calls say -/

/-- The channel of this name, if a call was about it. -/
def known (calls : List Call) (name : Bytes) : Option Channel :=
  if calls.any fun call => call.name == some name then (deriveChannel lib name).toOption else none

/-- What the node granted to a subscription for this channel hash. -/
def Call.grants (hash : Hash) : Call → Option SubscribeResult
  | .subscribe _ name (.response bytes) =>
    match deriveChannel lib name with
    | .error _ => none
    | .ok derived =>
      let decoded := decodeSubscribeResponse u sizeBits bytes
      if derived.channelHash = hash ∧ decoded.ok = true then some decoded else none
  | _ => none

/-- The last of what it granted. -/
def lastGrant (calls : List Call) (hash : Hash) : Option SubscribeResult :=
  calls.reverse.findSome? (Call.grants lib u sizeBits hash)

variable {lib u sizeBits}

theorem known_concat (calls : List Call) (call : Call) (name : Bytes) :
    known lib (calls ++ [call]) name =
      if call.name = some name then (deriveChannel lib name).toOption
      else known lib calls name := by
  simp only [known, List.any_append, List.any_cons, List.any_nil, Bool.or_false, Bool.or_eq_true,
    beq_iff_eq]
  split_ifs <;> first | rfl | simp_all

theorem lastGrant_concat (calls : List Call) (call : Call) (hash : Hash) :
    lastGrant lib u sizeBits (calls ++ [call]) hash =
      (call.grants lib u sizeBits hash).or (lastGrant lib u sizeBits calls hash) := by
  rw [lastGrant, List.reverse_append, List.reverse_singleton, List.singleton_append,
    List.findSome?_cons]
  cases call.grants lib u sizeBits hash <;> rfl

/-- A client keeps what the calls say. -/
structure Tracks (lib : ChannelLibrary) (u : Cpp.Cursor σ) (sizeBits : ℕ) (calls : List Call)
    (c : RFedClient) : Prop where
  channels : ∀ name, c.channels[name]? = known lib calls name
  hasStampCost : ∀ hash : Hash, c.hasStampCost[hash.val]? =
    (lastGrant lib u sizeBits calls hash).map SubscribeResult.hasStampCost
  stampCosts : ∀ hash : Hash, c.stampCosts[hash.val]? =
    (lastGrant lib u sizeBits calls hash).map SubscribeResult.stampCost
  listening : c.listening = true ↔ Call.listenRaw ∈ calls

section Step

variable {calls : List Call} {c : RFedClient}

theorem channel_snd (name : Bytes) (c : RFedClient) :
    (c.channel lib name).2 = { c with channels := (c.channel lib name).2.channels } := by
  unfold RFedClient.channel
  cases c.channels[name]? with
  | some found => rfl
  | none => cases deriveChannel lib name <;> rfl

theorem Tracks.channel_fst (h : Tracks lib u sizeBits calls c) (name : Bytes) :
    (c.channel lib name).1 = deriveChannel lib name := by
  unfold RFedClient.channel
  have hname := h.channels name
  rw [known] at hname
  cases hget : c.channels[name]? with
  | none => cases deriveChannel lib name <;> rfl
  | some found =>
    rw [hget] at hname
    split_ifs at hname
    exact (Fallible.eq_ok_of_toOption hname.symm).symm

theorem Tracks.channel_channels (h : Tracks lib u sizeBits calls c) (name n : Bytes) :
    (c.channel lib name).2.channels[n]? =
      if name = n then (deriveChannel lib n).toOption else known lib calls n := by
  have hname := h.channels name
  unfold RFedClient.channel
  cases hget : c.channels[name]? with
  | some found =>
    dsimp only
    rw [h.channels n]
    split_ifs with hn
    · subst hn
      rw [known] at hname ⊢
      rw [hget] at hname
      split_ifs at hname with hany
      rw [if_pos hany]
    · rfl
  | none =>
    cases hderive : deriveChannel lib name with
    | error e =>
      dsimp only
      rw [h.channels n]
      split_ifs with hn
      · subst hn
        rw [← h.channels, hget, hderive]
        rfl
      · rfl
    | ok derived =>
      dsimp only
      have hnot : name ∉ c.channels := by
        rw [TreeMap.mem_iff_isSome_getElem?, hget]
        simp
      rw [TreeMap.getElem?_insertIfNew, h.channels n]
      by_cases hn : name = n
      · subst hn
        rw [if_pos ⟨Std.ReflCmp.compare_self, hnot⟩, if_pos rfl, hderive]
        rfl
      · rw [if_neg fun hand => hn (Std.LawfulEqCmp.eq_of_compare hand.1), if_neg hn]

theorem Tracks.request_snd (nodeHex : String) (name : Bytes) (reply : Reply) (c : RFedClient) :
    (c.request lib nodeHex name reply).2 = (c.channel lib name).2 := by
  unfold RFedClient.request
  rcases c.channel lib name with ⟨_ | entry, c'⟩
  · rfl
  · cases reply <;> rfl

theorem Tracks.request_fst (h : Tracks lib u sizeBits calls c) (nodeHex : String) (name : Bytes)
    (reply : Reply) (entry : Channel) (bytes : Bytes) :
    (c.request lib nodeHex name reply).1 = .ok (entry, bytes) ↔
      deriveChannel lib name = .ok entry ∧ reply = .response bytes := by
  have hfst := h.channel_fst name
  unfold RFedClient.request
  generalize c.channel lib name = r at hfst ⊢
  obtain ⟨result, c'⟩ := r
  dsimp only at hfst
  subst hfst
  cases hderive : deriveChannel lib name with
  | error e => simp
  | ok entry' => cases reply <;> simp

/-- A call that the node grants nothing to. -/
theorem Tracks.touch (h : Tracks lib u sizeBits calls c) {call : Call} {name : Bytes}
    (hname : call.name = some name) (hgrants : ∀ hash, call.grants lib u sizeBits hash = none) :
    Tracks lib u sizeBits (calls ++ [call]) (c.channel lib name).2 where
  channels n := by
    simp only [h.channel_channels, known_concat, hname, Option.some.injEq]
  hasStampCost hash := by
    rw [channel_snd, lastGrant_concat, hgrants, Option.none_or]
    exact h.hasStampCost hash
  stampCosts hash := by
    rw [channel_snd, lastGrant_concat, hgrants, Option.none_or]
    exact h.stampCosts hash
  listening := by
    have hne : Call.listenRaw ≠ call := by
      rintro rfl
      cases hname
    rw [channel_snd, List.mem_append, List.mem_singleton, or_iff_left hne]
    exact h.listening

/-- A subscription that the node grants. -/
theorem Tracks.grant (h : Tracks lib u sizeBits calls c) {nodeHex : String} {name bytes : Bytes}
    {entry : Channel} (hentry : deriveChannel lib name = .ok entry)
    (hok : (decodeSubscribeResponse u sizeBits bytes).ok = true) :
    Tracks lib u sizeBits (calls ++ [.subscribe nodeHex name (.response bytes)])
      { (c.channel lib name).2 with
        hasStampCost := (c.channel lib name).2.hasStampCost.insert entry.channelHash.val
          (decodeSubscribeResponse u sizeBits bytes).hasStampCost
        stampCosts := (c.channel lib name).2.stampCosts.insert entry.channelHash.val
          (decodeSubscribeResponse u sizeBits bytes).stampCost } := by
  have hgrants (hash : Hash) : (Call.subscribe nodeHex name (.response bytes)).grants lib u
      sizeBits hash = if entry.channelHash = hash then
        some (decodeSubscribeResponse u sizeBits bytes) else none := by
    simp only [Call.grants, hentry, hok, and_true]
  have hkey (hash : Hash) : compare entry.channelHash.val hash.val = .eq ↔
      entry.channelHash = hash := by
    rw [Std.LawfulEqCmp.compare_eq_iff_eq, Subtype.ext_iff]
  refine ⟨fun n => ?_, fun hash => ?_, fun hash => ?_, ?_⟩
  · simp only [known_concat, Call.name, Option.some.injEq]
    exact h.channel_channels name n
  · rw [lastGrant_concat, hgrants, TreeMap.getElem?_insert, channel_snd]
    by_cases heq : entry.channelHash = hash
    · rw [if_pos ((hkey hash).mpr heq), if_pos heq]
      rfl
    · rw [if_neg fun hc => heq ((hkey hash).mp hc), if_neg heq]
      exact h.hasStampCost hash
  · rw [lastGrant_concat, hgrants, TreeMap.getElem?_insert, channel_snd]
    by_cases heq : entry.channelHash = hash
    · rw [if_pos ((hkey hash).mpr heq), if_pos heq]
      rfl
    · rw [if_neg fun hc => heq ((hkey hash).mp hc), if_neg heq]
      exact h.stampCosts hash
  · rw [channel_snd, List.mem_append, List.mem_singleton, or_iff_left (by simp)]
    exact h.listening

theorem Tracks.perform (h : Tracks lib u sizeBits calls c) (call : Call) :
    Tracks lib u sizeBits (calls ++ [call]) (perform lib u sizeBits c call) := by
  cases call with
  | channel name => exact h.touch rfl fun _ => rfl
  | unsubscribe nodeHex name reply =>
    have hsnd : (c.unsubscribe lib u sizeBits nodeHex name reply).2 = (c.channel lib name).2 := by
      rw [← Tracks.request_snd nodeHex name reply c]
      unfold RFedClient.unsubscribe
      rcases c.request lib nodeHex name reply with ⟨_ | ⟨entry, bytes⟩, c'⟩ <;> rfl
    rw [Rfed.perform, hsnd]
    exact h.touch rfl fun _ => rfl
  | pull nodeHex name reply =>
    have hsnd : (c.pull lib u nodeHex name reply).2 = (c.channel lib name).2 := by
      rw [← Tracks.request_snd nodeHex name reply c]
      unfold RFedClient.pull
      rcases c.request lib nodeHex name reply with ⟨_ | ⟨entry, bytes⟩, c'⟩ <;> rfl
    rw [Rfed.perform, hsnd]
    exact h.touch rfl fun _ => rfl
  | listenRaw =>
    refine ⟨fun n => ?_, fun hash => ?_, fun hash => ?_, ?_⟩
    · rw [known_concat, if_neg (by simp [Call.name])]
      exact h.channels n
    · rw [lastGrant_concat]
      exact h.hasStampCost hash
    · rw [lastGrant_concat]
      exact h.stampCosts hash
    · exact iff_of_true rfl (List.mem_append_right _ (List.mem_singleton.mpr rfl))
  | subscribe nodeHex name reply =>
    have hsnd : (c.request lib nodeHex name reply).2 = (c.channel lib name).2 :=
      Tracks.request_snd nodeHex name reply c
    have hfst := h.request_fst nodeHex name reply
    rw [Rfed.perform, RFedClient.subscribe]
    generalize c.request lib nodeHex name reply = r at hsnd hfst
    obtain ⟨result, c'⟩ := r
    obtain rfl : c' = (c.channel lib name).2 := hsnd
    cases result with
    | error e =>
      -- nothing was answered
      refine h.touch rfl fun hash => ?_
      cases reply with
      | unknownNode => rfl
      | noLink e => rfl
      | response bytes =>
        cases hderive : deriveChannel lib name with
        | error e' => simp only [Call.grants, hderive]
        | ok entry => cases (hfst entry bytes).mpr ⟨hderive, rfl⟩
    | ok answer =>
      obtain ⟨entry, bytes⟩ := answer
      obtain ⟨hentry, rfl⟩ := (hfst entry bytes).mp rfl
      dsimp only
      split_ifs with hok
      · exact h.grant hentry hok
      · refine h.touch rfl fun hash => ?_
        simp [Call.grants, hentry, hok]

end Step

theorem tracks (calls : List Call) :
    Tracks lib u sizeBits calls (performAll lib u sizeBits calls) := by
  induction calls using List.reverseRecOn with
  | nil =>
    refine ⟨fun name => ?_, fun hash => ?_, fun hash => ?_, ?_⟩
    · exact TreeMap.getElem?_emptyc
    · exact TreeMap.getElem?_emptyc
    · exact TreeMap.getElem?_emptyc
    · simp [performAll, RFedClient.blank]
  | append_singleton calls call ih =>
    rw [performAll, List.foldl_concat]
    exact ih.perform call

/-! ## What a client answers -/

/-- The stamp cost that a grant names. -/
def SubscribeResult.cost (r : SubscribeResult) : Option ℕ :=
  if r.hasStampCost then some r.stampCost else none

/-- The cost in the last grant for the channel. -/
def grantedCost (lib : ChannelLibrary) (u : Cpp.Cursor σ) (sizeBits : ℕ) (calls : List Call)
    (name : Bytes) : Option ℕ :=
  (known lib calls name).bind fun entry =>
    (lastGrant lib u sizeBits calls entry.channelHash).bind SubscribeResult.cost

section Answers

variable {calls : List Call} {c : RFedClient}

theorem Tracks.stampCost (h : Tracks lib u sizeBits calls c) (name : Bytes) :
    c.stampCost name = .ok (grantedCost lib u sizeBits calls name) := by
  rw [RFedClient.stampCost, grantedCost, h.channels]
  cases known lib calls name with
  | none => rfl
  | some entry =>
    dsimp only [Option.bind_some]
    rw [h.hasStampCost, h.stampCosts]
    cases lastGrant lib u sizeBits calls entry.channelHash with
    | none => rfl
    | some r => cases hcost : r.hasStampCost <;> simp [SubscribeResult.cost, hcost]

/-- The channel that a message is handed on for: of those with its hash, the one whose name comes
first. -/
structure Dispatched (lib : ChannelLibrary) (calls : List Call) (data : Bytes) (f : Fanout)
    (entry : Channel) : Prop where
  known : known lib calls f.channelName = some entry
  identity : f.channelIdentity = entry.identity
  data : data = entry.channelHash.val ++ f.innerBlob
  least : ∀ name other, compare name f.channelName = .lt →
    Rfed.known lib calls name = some other → other.channelHash ≠ entry.channelHash

theorem Tracks.handleFanout_eq_some (h : Tracks lib u sizeBits calls c) {data : Bytes}
    {f : Fanout} : c.handleFanout data = some f ↔
      Call.listenRaw ∈ calls ∧ ∃ entry, Dispatched lib calls data f entry := by
  rw [RFedClient.handleFanout, ← h.listening]
  constructor
  · intro hf
    cases hparse : parseFanoutPayload data with
    | error e => simp [hparse] at hf
    | ok parsed =>
      simp only [hparse] at hf
      split at hf
      · cases hf
      · rename_i name entry hfind
        obtain ⟨hget, hhash, hleast⟩ := find?_toList_eq_some.mp hfind
        split_ifs at hf with hlisten
        obtain rfl := Option.some.inj hf
        have hhash := beq_iff_eq.mp hhash
        have hdata : data = parsed.channelHash ++ parsed.innerBlob := by
          unfold parseFanoutPayload at hparse
          split_ifs at hparse
          obtain rfl := Except.ok.inj hparse
          exact (List.take_append_drop hashLength data).symm
        refine ⟨hlisten, entry, h.channels name ▸ hget, rfl, hhash ▸ hdata, ?_⟩
        intro other entry' hlt hknown heq
        have hfalse := hleast (other, entry') hlt ((h.channels other).trans hknown)
        rw [beq_eq_false_iff_ne, heq] at hfalse
        exact hfalse hhash
  · rintro ⟨hlisten, entry, hd⟩
    have hfind : (c.channels.toList.find? fun e => e.2.channelHash.val == entry.channelHash.val) =
        some (f.channelName, entry) := by
      refine find?_toList_eq_some.mpr ⟨(h.channels _).trans hd.known, beq_self_eq_true _, ?_⟩
      rintro ⟨name, other⟩ hlt hget
      refine beq_eq_false_iff_ne.mpr fun heq => ?_
      exact hd.least name other hlt ((h.channels name).symm.trans hget) (Subtype.ext heq)
    rw [hd.data, parseFanoutPayload_append]
    dsimp only
    rw [hfind]
    dsimp only
    rw [if_pos hlisten, ← hd.identity]

end Answers

/-- What a client answers follows from the calls made to it: the cost of a channel is the one in
the last grant for its hash, whether it was subscribed to by this name or another, and a message
goes to the first name with its hash among all that any call was about, subscribed to or not. -/
theorem client_answers (lib : ChannelLibrary) (u : Cpp.Cursor σ) (sizeBits : ℕ)
    (calls : List Call) :
    (∀ name, (performAll lib u sizeBits calls).stampCost name =
      .ok (grantedCost lib u sizeBits calls name)) ∧
    ∀ data f, (performAll lib u sizeBits calls).handleFanout data = some f ↔
      Call.listenRaw ∈ calls ∧ ∃ entry, Dispatched lib calls data f entry :=
  ⟨(tracks calls).stampCost, fun _ _ => (tracks calls).handleFanout_eq_some⟩

/-! ## From client to client -/

/-- Of the channels that a call is about, those with this channel's hash have its identity. -/
def Separates (lib : ChannelLibrary) (entry : Channel) (calls : List Call) : Prop :=
  ∀ name other, known lib calls name = some other → other.channelHash = entry.channelHash →
    other.identity = entry.identity

theorem channelHash_eq {name : Bytes} {entry : Channel} (h : deriveChannel lib name = .ok entry) :
    entry.channelHash = entry.identity.hash := by
  unfold deriveChannel at h
  split_ifs at h
  dsimp only at h
  split at h
  · cases h
  · obtain rfl := Except.ok.inj h
    rfl

theorem known_eq_some {calls : List Call} {name : Bytes} {entry : Channel} :
    known lib calls name = some entry ↔
      (∃ call ∈ calls, call.name = some name) ∧ deriveChannel lib name = .ok entry := by
  rw [known]
  constructor
  · intro h
    split_ifs at h with hany
    refine ⟨?_, Fallible.eq_ok_of_toOption h⟩
    obtain ⟨call, hmem, hname⟩ := List.any_eq_true.mp hany
    exact ⟨call, hmem, beq_iff_eq.mp hname⟩
  · rintro ⟨⟨call, hmem, hname⟩, hderive⟩
    have hany : (calls.any fun call => call.name == some name) = true :=
      List.any_eq_true.mpr ⟨call, hmem, beq_iff_eq.mpr hname⟩
    rw [if_pos hany, hderive]
    rfl

/-- A message of a channel that the client knows is handed on. -/
theorem Tracks.exists_fanout {calls : List Call} {c : RFedClient}
    (h : Tracks lib u sizeBits calls c) (hlisten : Call.listenRaw ∈ calls) {name : Bytes}
    {entry : Channel} (hknown : known lib calls name = some entry) (innerBlob : Bytes) :
    ∃ f, c.handleFanout (entry.channelHash.val ++ innerBlob) = some f := by
  have hfound : (c.channels.toList.find?
      fun e => e.2.channelHash.val == entry.channelHash.val).isSome = true := by
    rw [List.find?_isSome]
    exact ⟨(name, entry), TreeMap.mem_toList_iff_getElem?_eq_some.mpr
      ((h.channels name).trans hknown), beq_self_eq_true _⟩
  obtain ⟨⟨first, found⟩, hfind⟩ := Option.isSome_iff_exists.mp hfound
  refine ⟨⟨first, found.identity, innerBlob⟩, ?_⟩
  rw [RFedClient.handleFanout, parseFanoutPayload_append]
  dsimp only
  rw [hfind]
  dsimp only
  rw [if_pos (h.listening.mpr hlisten)]

/-- A Delta that is wrapped for a channel at the cost the publisher was granted carries a stamp
of that cost, and every client that listens and knows the channel unwraps it from the message it
is handed, under whichever of its names that has the hash. -/
theorem published_delta_dispatched {lib : ChannelLibrary} (u : Cpp.Cursor σ)
    (sizeBits : ℕ) (H : StampHashes) (I : IdentityHashes) (random : ℕ → Blob stampSize)
    (publisher subscriber : List Call) {name : Bytes} {entry : Channel}
    (hentry : deriveChannel lib name = .ok entry) (hdecrypts : entry.identity.Lawful)
    (hapart : Separates lib entry subscriber)
    (hknown : ∃ call ∈ subscriber, call.name = some name)
    (hlisten : Call.listenRaw ∈ subscriber) {sender : Identity} {entropy delta : Bytes}
    {cost : Option ℕ} (hcost : (performAll lib u sizeBits publisher).stampCost name = .ok cost)
    {p : RfedPayload}
    (hp : Cpp.wrapDacarDelta H I random entry.identity sender entropy delta (cost.getD 0) =
      .ok p) :
    (∀ granted ∈ grantedCost lib u sizeBits publisher name, 0 < granted →
      ∃ stamp ∈ p.stamp, p.rfedPayload = entry.channelHash.val ++ p.innerBlob ++ stamp.val ∧
        validateChannelStamp H entry.channelHash p.innerBlob stamp.val granted
          stampExpandRounds = true) ∧
    ∃ f, (performAll lib u sizeBits subscriber).handleFanout
        (entry.channelHash.val ++ p.innerBlob) = some f ∧
      Cpp.unwrapDacarDelta f.innerBlob f.channelIdentity = .ok ⟨delta, sender.publicKey⟩ := by
  obtain ⟨hwraps, hstamp⟩ := Cpp.wraps hp
  have hhash : entry.identity.hash = entry.channelHash := (channelHash_eq hentry).symm
  have hcomes := hwraps.comesApart hdecrypts
  constructor
  · intro granted hgranted hpos
    have hget : cost = some granted := by
      rw [(tracks publisher).stampCost name] at hcost
      exact (Except.ok.inj hcost).symm.trans hgranted
    subst hget
    obtain ⟨stamp, hmem⟩ := Option.isSome_iff_exists.mp (hwraps.stamped.mpr hpos)
    obtain ⟨trial, -, -, hvalid, -⟩ := (searchStamp_eq_ok _ _).mp (hstamp stamp hmem)
    refine ⟨stamp, hmem, ?_, ?_⟩
    · rw [hwraps.rfedPayload, hmem, hwraps.channelHash, hhash]
      rfl
    · rw [← hhash]
      exact validateChannelStamp_iff.mpr ⟨stamp.property.ge, stampValid_iff.mp hvalid⟩
  · have hsub : Tracks lib u sizeBits subscriber (performAll lib u sizeBits subscriber) :=
      tracks subscriber
    obtain ⟨f, hf⟩ := hsub.exists_fanout hlisten (known_eq_some.mpr ⟨hknown, hentry⟩) p.innerBlob
    obtain ⟨-, found, hd⟩ := hsub.handleFanout_eq_some.mp hf
    obtain ⟨hsame, hinner⟩ := Blob.append_inj hd.data
    refine ⟨f, hf, ?_⟩
    rw [hd.identity, ← hinner, hapart f.channelName found hd.known hsame.symm]
    exact hcomes.cpp

section Stamped

/-- Every channel is the one that masks. -/
def maskLibrary : ChannelLibrary := ⟨fun _ => Blob.fill 32 0, fun _ => some maskChannel⟩

theorem maskLibrary_identity {name : Bytes} {entry : Channel}
    (h : deriveChannel maskLibrary name = .ok entry) : entry.identity = maskChannel := by
  unfold deriveChannel at h
  split_ifs at h
  obtain rfl := Except.ok.inj h
  rfl

theorem maskLibrary_separates (calls : List Call) :
    Separates maskLibrary ⟨maskChannel, maskChannel.hash⟩ calls := by
  intro name other hknown _
  exact maskLibrary_identity (known_eq_some.mp hknown).2

/-- The node answered `[true, 4]` to the publisher. -/
def grantedFour : List Call := [.subscribe "" [1] (.response [0x92, 0xc3, 4])]

theorem published_delta_dispatched_stamped :
    (∃ stamp ∈ stampedDelta.stamp, validateChannelStamp payHashes maskChannel.hash
        stampedDelta.innerBlob stamp.val 4 stampExpandRounds = true) ∧
      ∃ f, (performAll maskLibrary Cpp.objectReader 64 [.channel [1], .listenRaw]).handleFanout
          (maskChannel.hash.val ++ stampedDelta.innerBlob) = some f ∧
        Cpp.unwrapDacarDelta f.innerBlob f.channelIdentity = .ok ⟨[7], maskChannel.publicKey⟩ := by
  have hcost : (performAll maskLibrary Cpp.objectReader 64 grantedFour).stampCost [1] =
      .ok (some 4) := by
    decide +kernel
  have hgranted : grantedCost maskLibrary Cpp.objectReader 64 grantedFour [1] = some 4 := by
    decide +kernel
  have hentry : deriveChannel maskLibrary [1] = .ok ⟨maskChannel, maskChannel.hash⟩ := rfl
  obtain ⟨hstamp, hfanout⟩ := published_delta_dispatched Cpp.objectReader 64 payHashes maskHashes
    draws grantedFour [.channel [1], .listenRaw] hentry maskChannel_lawful
    (maskLibrary_separates _) ⟨_, List.mem_cons_self, rfl⟩
    (List.mem_cons_of_mem _ List.mem_cons_self) hcost wrap_stampedDelta
  obtain ⟨stamp, hmem, -, hvalid⟩ := hstamp 4 hgranted (by decide)
  exact ⟨⟨stamp, hmem, hvalid⟩, hfanout⟩

end Stamped

end Client

end Dacar.Rfed
