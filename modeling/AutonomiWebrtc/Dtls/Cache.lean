import AutonomiWebrtc.Dtls.Message
import Mathlib.Data.List.MinMax

/-!
# The handshake cache

Both sides keep the handshake messages they have sent and received.  The flights take their
input from the cache, and the transcript that is hashed and signed is pulled from it.

An item is stored once for each number and side: what is stored stays, and a message that
comes again changes nothing.  The maps of `full_pull_map` are functions of the message type.
-/

namespace AutonomiWebrtc.Dtls

open Readers

/-- `HandshakeCacheItem`. -/
structure HandshakeCacheItem where
  typ : HandshakeType
  isClient : Bool
  epoch : UInt16
  messageSequence : UInt16
  data : Bytes
  deriving DecidableEq

/-- `HandshakeCachePullRule`. -/
structure HandshakeCachePullRule where
  typ : HandshakeType
  epoch : UInt16
  isClient : Bool
  optional : Bool

/-- The rule asks for this item. -/
def HandshakeCachePullRule.asks (r : HandshakeCachePullRule) (c : HandshakeCacheItem) : Bool :=
  c.typ = r.typ ∧ c.isClient = r.isClient ∧ c.epoch = r.epoch

/-- `HandshakeCache`. -/
abbrev HandshakeCache := List HandshakeCacheItem

namespace HandshakeCache

/-- `HandshakeCache::push`: the cache, and whether the item is new. -/
def push (cache : HandshakeCache) (item : HandshakeCacheItem) : HandshakeCache × Bool :=
  if ∃ i ∈ cache, i.messageSequence = item.messageSequence ∧ i.isClient = item.isClient then
    (cache, false)
  else (cache ++ [item], true)

/-- The item of a rule: the first of those with the greatest number. -/
def latest (cache : HandshakeCache) (r : HandshakeCachePullRule) : Option HandshakeCacheItem :=
  (cache.filter r.asks).argmax fun c => c.messageSequence.toNat

/-- `HandshakeCache::pull`. -/
def pull (cache : HandshakeCache) (rules : List HandshakeCachePullRule) :
    List HandshakeCacheItem :=
  rules.filterMap cache.latest

/-- `HandshakeCache::pull_and_merge`. -/
def pullAndMerge (cache : HandshakeCache) (rules : List HandshakeCachePullRule) : Bytes :=
  (cache.pull rules).flatMap HandshakeCacheItem.data

/-- The first loop of `full_pull_map`: the items of the rules, of which those that are not
optional must be there. -/
def collect (cache : HandshakeCache) (ci : HandshakeType → Option HandshakeCacheItem) :
    List HandshakeCachePullRule →
      Except (Fault Error) (HandshakeType → Option HandshakeCacheItem)
  | [] => .ok ci
  | r :: rules =>
      match cache.latest r with
      | some c => collect cache (Function.update ci r.typ (some c)) rules
      | none =>
          if r.optional then collect cache ci rules
          else .error (.err (.other "Missing mandatory message"))

/-- The second loop of `full_pull_map`: the messages of the items, whose numbers must follow
one another. -/
def inSequence (ci : HandshakeType → Option HandshakeCacheItem) (seq : ℤ)
    (out : HandshakeType → Option HandshakeMessage) :
    List HandshakeCachePullRule →
      Except (Fault Error) (ℤ × (HandshakeType → Option HandshakeMessage))
  | [] => .ok (seq, out)
  | r :: rules =>
      match ci r.typ with
      | none => inSequence ci seq out rules
      | some i =>
          match Handshake.unmarshal.run i.data with
          | .error fault => .error fault
          | .ok (rawHandshake, _) =>
              if UInt16.ofInt seq ≠ rawHandshake.handshakeHeader.messageSequence then
                .error (.err (.other "There is a gap. Some messages are not arrived."))
              else
                inSequence ci (seq + 1)
                  (Function.update out r.typ (some rawHandshake.handshakeMessage)) rules

/-- `HandshakeCache::full_pull_map`. -/
def fullPullMap (cache : HandshakeCache) (startSeq : ℤ) (rules : List HandshakeCachePullRule) :
    Except (Fault Error) (ℤ × (HandshakeType → Option HandshakeMessage)) := do
  let ci ← cache.collect (fun _ => none) rules
  inSequence ci startSeq (fun _ => none) rules

/-! ## What is stored -/

/-- The number and the side of an item. -/
def key (item : HandshakeCacheItem) : UInt16 × Bool := (item.messageSequence, item.isClient)

theorem push_fst (cache : HandshakeCache) (item : HandshakeCacheItem) :
    (cache.push item).1 = if key item ∈ cache.map key then cache else cache ++ [item] := by
  have hiff : key item ∈ cache.map key ↔
      ∃ i ∈ cache, i.messageSequence = item.messageSequence ∧ i.isClient = item.isClient := by
    simp [key]
  unfold push
  simp only [hiff]
  split <;> rfl

/-- What is stored stays in its place. -/
theorem prefix_push (cache : HandshakeCache) (item : HandshakeCacheItem) :
    cache <+: (cache.push item).1 := by
  rw [push_fst]
  split
  · exact List.prefix_rfl
  · exact List.prefix_append _ _

/-- There is one item for each number and side. -/
theorem nodup_push {cache : HandshakeCache} (hnodup : (cache.map key).Nodup)
    (item : HandshakeCacheItem) : ((cache.push item).1.map key).Nodup := by
  rw [push_fst]
  split
  · exact hnodup
  · rename_i hnew
    rw [List.map_append, List.map_cons, List.map_nil]
    refine List.nodup_append.mpr ⟨hnodup, by simp, ?_⟩
    rintro first hfirst second hsecond rfl
    rw [List.mem_singleton.mp hsecond] at hfirst
    exact hnew hfirst

/-- The item of a rule is one that the rule asks for, and none of them has a greater
number. -/
theorem latest_eq_some {cache : HandshakeCache} {r : HandshakeCachePullRule}
    {item : HandshakeCacheItem} (hlatest : cache.latest r = some item) :
    item ∈ cache ∧ r.asks item = true ∧
      ∀ other ∈ cache, r.asks other = true →
        other.messageSequence.toNat ≤ item.messageSequence.toNat := by
  have hmem := List.mem_filter.mp (List.argmax_mem hlatest)
  refine ⟨hmem.1, hmem.2, fun other hother hasks => ?_⟩
  have hmatch : other ∈ cache.filter r.asks := List.mem_filter.mpr ⟨hother, hasks⟩
  have hle := List.le_of_mem_argmax hmatch hlatest
  exact hle

/-! ## What is pulled -/

/-- The item of a rule is read as this message. -/
def Offers (cache : HandshakeCache) (r : HandshakeCachePullRule) (item : HandshakeCacheItem)
    (handshake : Handshake) : Prop :=
  cache.latest r = some item ∧ ∃ rest, Handshake.unmarshal.run item.data = .ok (handshake, rest)

theorem collect_eq_some {cache : HandshakeCache} {rules : List HandshakeCachePullRule}
    {ci next : HandshakeType → Option HandshakeCacheItem}
    (hcollect : cache.collect ci rules = .ok next) {typ : HandshakeType} {item : HandshakeCacheItem}
    (hitem : next typ = some item) :
    ci typ = some item ∨ ∃ r ∈ rules, r.typ = typ ∧ cache.latest r = some item := by
  induction rules generalizing ci with
  | nil =>
      cases hcollect
      exact .inl hitem
  | cons r rules ih =>
      rw [collect] at hcollect
      cases hlatest : cache.latest r with
      | none =>
          simp only [hlatest] at hcollect
          split at hcollect
          · rcases ih hcollect with hold | ⟨other, hother, htyp, hfound⟩
            · exact .inl hold
            · exact .inr ⟨other, List.mem_cons_of_mem _ hother, htyp, hfound⟩
          · cases hcollect
      | some c =>
          simp only [hlatest] at hcollect
          rcases ih hcollect with hold | ⟨other, hother, htyp, hfound⟩
          · by_cases htyp : typ = r.typ
            · subst htyp
              rw [Function.update_self] at hold
              exact .inr ⟨r, List.mem_cons_self, rfl, hlatest.trans hold⟩
            · rw [Function.update_of_ne htyp] at hold
              exact .inl hold
          · exact .inr ⟨other, List.mem_cons_of_mem _ hother, htyp, hfound⟩

theorem inSequence_eq_some {ci : HandshakeType → Option HandshakeCacheItem}
    {rules : List HandshakeCachePullRule} {seq last : ℤ}
    {out msgs : HandshakeType → Option HandshakeMessage}
    (hin : inSequence ci seq out rules = .ok (last, msgs)) {typ : HandshakeType}
    {message : HandshakeMessage} (hmessage : msgs typ = some message) :
    out typ = some message ∨ ∃ item handshake rest, ci typ = some item ∧
      Handshake.unmarshal.run item.data = .ok (handshake, rest) ∧
      handshake.handshakeMessage = message := by
  induction rules generalizing seq out with
  | nil =>
      cases hin
      exact .inl hmessage
  | cons r rules ih =>
      rw [inSequence] at hin
      cases hitem : ci r.typ with
      | none =>
          simp only [hitem] at hin
          exact ih hin
      | some item =>
          simp only [hitem] at hin
          cases hrun : Handshake.unmarshal.run item.data with
          | error fault =>
              simp only [hrun] at hin
              cases hin
          | ok result =>
              obtain ⟨handshake, rest⟩ := result
              simp only [hrun] at hin
              split at hin
              · cases hin
              · rcases ih hin with hold | hfound
                · by_cases htyp : typ = r.typ
                  · subst htyp
                    rw [Function.update_self] at hold
                    exact .inr ⟨item, handshake, rest, hitem, hrun, Option.some.inj hold⟩
                  · rw [Function.update_of_ne htyp] at hold
                    exact .inl hold
                · exact .inr hfound

/-- What has been collected stays, and the items of the rules that are not optional are
there. -/
theorem isSome_of_collect {cache : HandshakeCache} {rules : List HandshakeCachePullRule}
    {ci next : HandshakeType → Option HandshakeCacheItem}
    (hcollect : cache.collect ci rules = .ok next) {typ : HandshakeType}
    (htyp : (ci typ).isSome ∨ ∃ r ∈ rules, r.typ = typ ∧ r.optional = false) :
    (next typ).isSome := by
  induction rules generalizing ci with
  | nil =>
      cases hcollect
      simpa using htyp
  | cons r rules ih =>
      rw [collect] at hcollect
      cases hlatest : cache.latest r with
      | none =>
          simp only [hlatest] at hcollect
          split at hcollect
          · rename_i hoptional
            refine ih hcollect (htyp.imp_right ?_)
            rintro ⟨other, hother, hrest⟩
            rcases List.mem_cons.mp hother with rfl | hmem
            · rw [hoptional] at hrest
              cases hrest.2
            · exact ⟨other, hmem, hrest⟩
          · cases hcollect
      | some c =>
          simp only [hlatest] at hcollect
          apply ih hcollect
          by_cases hsame : typ = r.typ
          · subst hsame
            rw [Function.update_self]
            exact .inl rfl
          · rw [Function.update_of_ne hsame]
            refine htyp.imp_right ?_
            rintro ⟨other, hother, hrest⟩
            rcases List.mem_cons.mp hother with rfl | hmem
            · exact absurd hrest.1.symm hsame
            · exact ⟨other, hmem, hrest⟩

theorem isSome_of_inSequence {ci : HandshakeType → Option HandshakeCacheItem}
    {rules : List HandshakeCachePullRule} {seq last : ℤ}
    {out msgs : HandshakeType → Option HandshakeMessage}
    (hin : inSequence ci seq out rules = .ok (last, msgs)) {typ : HandshakeType}
    (htyp : (out typ).isSome ∨ (ci typ).isSome ∧ ∃ r ∈ rules, r.typ = typ) :
    (msgs typ).isSome := by
  induction rules generalizing seq out with
  | nil =>
      cases hin
      simpa using htyp
  | cons r rules ih =>
      rw [inSequence] at hin
      cases hitem : ci r.typ with
      | none =>
          simp only [hitem] at hin
          refine ih hin (htyp.imp_right ?_)
          rintro ⟨hsome, other, hother, rfl⟩
          rcases List.mem_cons.mp hother with rfl | hmem
          · rw [hitem] at hsome
            cases hsome
          · exact ⟨hsome, other, hmem, rfl⟩
      | some item =>
          simp only [hitem] at hin
          cases hrun : Handshake.unmarshal.run item.data with
          | error fault =>
              simp only [hrun] at hin
              cases hin
          | ok result =>
              obtain ⟨handshake, rest⟩ := result
              simp only [hrun] at hin
              split at hin
              · cases hin
              · apply ih hin
                by_cases hsame : typ = r.typ
                · subst hsame
                  rw [Function.update_self]
                  exact .inl rfl
                · rw [Function.update_of_ne hsame]
                  refine htyp.imp_right ?_
                  rintro ⟨hsome, other, hother, rfl⟩
                  rcases List.mem_cons.mp hother with rfl | hmem
                  · exact absurd rfl hsame
                  · exact ⟨hsome, other, hmem, rfl⟩

/-- A message that is not optional is there. -/
theorem exists_of_fullPullMap {cache : HandshakeCache} {rules : List HandshakeCachePullRule}
    {seq last : ℤ} {msgs : HandshakeType → Option HandshakeMessage}
    (hpull : cache.fullPullMap seq rules = .ok (last, msgs)) {r : HandshakeCachePullRule}
    (hr : r ∈ rules) (hoptional : r.optional = false) : ∃ message, msgs r.typ = some message := by
  obtain ⟨ci, hcollect, hin⟩ := bind_eq_ok.mp hpull
  have hsome := isSome_of_collect hcollect (.inr ⟨r, hr, rfl, hoptional⟩)
  exact Option.isSome_iff_exists.mp (isSome_of_inSequence hin (.inr ⟨hsome, r, hr, rfl⟩))

/-- Every message that is pulled is the one of the item of a rule. -/
theorem offers_of_fullPullMap {cache : HandshakeCache} {rules : List HandshakeCachePullRule}
    {seq last : ℤ} {msgs : HandshakeType → Option HandshakeMessage}
    (hpull : cache.fullPullMap seq rules = .ok (last, msgs)) {typ : HandshakeType}
    {message : HandshakeMessage} (hmessage : msgs typ = some message) :
    ∃ r ∈ rules, r.typ = typ ∧ ∃ item handshake, cache.Offers r item handshake ∧
      handshake.handshakeMessage = message := by
  obtain ⟨ci, hcollect, hin⟩ := bind_eq_ok.mp hpull
  rcases inSequence_eq_some hin hmessage with hnone | ⟨item, handshake, rest, hci, hrun, heq⟩
  · cases hnone
  · rcases collect_eq_some hcollect hci with hnone | ⟨r, hr, htyp, hlatest⟩
    · cases hnone
    · exact ⟨r, hr, htyp, item, handshake, ⟨hlatest, rest, hrun⟩, heq⟩

/-- What one rule that is not optional pulls: the message of its item, whose number is the one
asked for. -/
theorem fullPullMap_singleton {cache : HandshakeCache} {r : HandshakeCachePullRule}
    (hoptional : r.optional = false) {seq : ℤ}
    {pulled : ℤ × (HandshakeType → Option HandshakeMessage)}
    (hpull : cache.fullPullMap seq [r] = .ok pulled) :
    ∃ item handshake, cache.Offers r item handshake ∧
      handshake.handshakeHeader.messageSequence = UInt16.ofInt seq ∧
      pulled = (seq + 1,
        Function.update (fun _ => none) r.typ (some handshake.handshakeMessage)) := by
  obtain ⟨ci, hcollect, hin⟩ := bind_eq_ok.mp hpull
  rw [collect] at hcollect
  cases hlatest : cache.latest r with
  | none =>
      simp only [hlatest, hoptional] at hcollect
      cases hcollect
  | some item =>
      simp only [hlatest] at hcollect
      cases hcollect
      rw [inSequence, Function.update_self] at hin
      dsimp only at hin
      cases hrun : Handshake.unmarshal.run item.data with
      | error fault =>
          simp only [hrun] at hin
          cases hin
      | ok result =>
          obtain ⟨handshake, rest⟩ := result
          simp only [hrun] at hin
          split at hin
          · cases hin
          · rename_i hnumber
            cases hin
            exact ⟨item, handshake, ⟨hlatest, rest, hrun⟩, (not_not.mp hnumber).symm, rfl⟩

end HandshakeCache

end AutonomiWebrtc.Dtls
