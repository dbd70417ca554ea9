import Falcon.Diomedes.Elections

/-!
# Diomedes/Cache — the requests a backup keeps

A backup keeps the last datagram of each client, whatever it is, and the last response of each
client whose request it has run.  `ClearRequestCache` goes through the clients with a datagram when
the backup has become the primary; what it finds under the id of a client without a response is a
null pointer, and a response whose size is too large is written past the end of a buffer.

* `exists_clearRequestCache_iff`, `cleared_of_clearRequestCache` — so it needs a response for every
  client with a datagram, and if that is for the cached request, one whose size fits; then it
  answers the cached requests that the responses are for, in the order of the ids, and takes exactly
  these out.
-/

namespace Falcon.Diomedes

/-- What reaches a backup of clients and of the primary. -/
inductive BackupEvent
  /-- A datagram, and where it comes from. -/
  | store (msg : RequestMessage) (source : Address)
  /-- A request is handed to `RunRequest`. -/
  | run (preq : PrimaryRequest) (response : Option TcpRpcMsg)
  deriving DecidableEq, Repr

namespace Replica

open TcpRpcMsg (Fits)

/-- What `ClearRequestCache` sends to a client: its response, if that is for the cached request. -/
def answer (s : Replica) (id : UInt32) : Option Deed := do
  let request ← s.requestMap.lookup id
  let response ← s.responseMap.lookup id
  if request.preq.request.xid = response.xid then some (.responded id response.sent) else none

/-- The client has a response, whose size fits if it is for the cached request. -/
def Clearable (s : Replica) (id : UInt32) : Prop :=
  ∃ x ∈ s.responseMap.lookup id, ∀ m ∈ s.requestMap.lookup id,
    m.preq.request.xid = x.xid → Fits x.msgSize

instance (s : Replica) (id : UInt32) : Decidable (s.Clearable id) :=
  inferInstanceAs (Decidable (∃ _ ∈ _, _))

/-- The ids of the clients with a cached request, in the order of the map. -/
def cachedIds (s : Replica) : List UInt32 := s.requestMap.keys.insertionSort (· ≤ ·)

/-- The cache has been cleared: what is left are the requests without an answer, and the answers
have been sent. -/
structure Cleared (l : List UInt32) (s r : Replica) : Prop where
  others : r = { s with requestMap := r.requestMap, deeds := r.deeds }
  left : ∀ id, r.requestMap.lookup id =
    if id ∈ l ∧ (s.answer id).isSome then none else s.requestMap.lookup id
  sent : r.deeds = (l.filterMap s.answer).reverse ++ s.deeds

variable {s s' r : Replica} {id id' : UInt32} {l : List UInt32} {request : RequestMessage}
  {response : TcpRpcMsg}

theorem mem_cachedIds : id ∈ s.cachedIds ↔ id ∈ s.requestMap := by
  rw [cachedIds, (List.perm_insertionSort (· ≤ ·) _).mem_iff, AList.mem_keys]

theorem nodup_cachedIds (s : Replica) : s.cachedIds.Nodup :=
  (List.perm_insertionSort (· ≤ ·) _).nodup_iff.mpr s.requestMap.keys_nodup

/-- One round: an answered request is taken out. -/
theorem clearRequest_cases (h : s.clearRequest id = some s') : s.Clearable id ∧
    ((∃ d, s.answer id = some d ∧
        s' = { s with requestMap := s.requestMap.erase id, deeds := d :: s.deeds }) ∨
      s.answer id = none ∧ s' = s) := by
  obtain ⟨request, response, hrequest, hresponse, hround⟩ := clearRequest_eq h
  have hanswer : s.answer id = if request.preq.request.xid = response.xid then
      some (.responded id response.sent) else none := by
    rw [answer, hrequest, hresponse]
    rfl
  rw [hanswer]
  obtain ⟨hxid, hfits, rfl⟩ | ⟨hxid, rfl⟩ := hround
  · exact ⟨⟨response, hresponse, fun _ _ _ => hfits⟩, Or.inl ⟨_, if_pos hxid, rfl⟩⟩
  · refine ⟨⟨response, hresponse, fun m hm heq => absurd heq ?_⟩, Or.inr ⟨if_neg hxid, rfl⟩⟩
    obtain rfl := Option.some.inj (hrequest.symm.trans hm)
    exact hxid

/-- The round is made for a client with a request, if that can be cleared. -/
theorem exists_clearRequest (hrequest : id ∈ s.requestMap) (hclear : s.Clearable id) :
    ∃ s', s.clearRequest id = some s' := by
  obtain ⟨request, hrequest⟩ := Keyed.exists_lookup hrequest
  obtain ⟨response, hresponse, hfits⟩ := hclear
  unfold clearRequest
  rw [hrequest, Option.mem_def.mp hresponse]
  by_cases hxid : request.preq.request.xid = response.xid
  · have hfits := hfits request hrequest hxid
    exact ⟨_, (if_pos hxid).trans (if_pos hfits)⟩
  · exact ⟨_, if_neg hxid⟩

/-- A round is about one client. -/
theorem clearRequest_frame (h : s.clearRequest id = some s') (hne : id' ≠ id) :
    s'.requestMap.lookup id' = s.requestMap.lookup id' ∧ s'.answer id' = s.answer id' ∧
      (s'.Clearable id' ↔ s.Clearable id') := by
  obtain ⟨-, ⟨d, -, rfl⟩ | ⟨-, rfl⟩⟩ := clearRequest_cases h
  · rw [answer, answer, Clearable, Clearable, AList.lookup_erase_ne hne]
    exact ⟨rfl, rfl, Iff.rfl⟩
  · exact ⟨rfl, rfl, Iff.rfl⟩

/-- The loop, as far as it goes. -/
theorem cleared_of_foldlM (hl : l.Nodup) (h : l.foldlM clearRequest s = some r) :
    Cleared l s r ∧ ∀ id ∈ l, s.Clearable id := by
  induction l generalizing s with
  | nil =>
    obtain rfl := Option.some.inj h
    exact ⟨⟨rfl, fun id => by simp, rfl⟩, fun id hid => absurd hid List.not_mem_nil⟩
  | cons id l ih =>
    obtain ⟨hid, hl⟩ := List.nodup_cons.mp hl
    rw [List.foldlM_cons] at h
    obtain ⟨s₁, hs₁, h⟩ := Option.bind_eq_some_iff.mp h
    obtain ⟨⟨hothers, hleft, hsent⟩, hclears⟩ := ih hl h
    have hne : ∀ id' ∈ l, id' ≠ id := fun id' hid' heq => hid (heq ▸ hid')
    have hanswers : l.filterMap s₁.answer = l.filterMap s.answer :=
      List.filterMap_congr fun id' hid' => (clearRequest_frame hs₁ (hne id' hid')).2.1
    obtain ⟨hclear, hround⟩ := clearRequest_cases hs₁
    refine ⟨⟨?_, fun id' => ?_, ?_⟩, fun id' hid' => ?_⟩
    · rw [hothers]
      obtain ⟨d, -, rfl⟩ | ⟨-, rfl⟩ := hround
      · rfl
      · rfl
    · rw [hleft id']
      by_cases heq : id' = id
      · subst heq
        obtain ⟨d, hd, rfl⟩ | ⟨hnone, rfl⟩ := hround
        · simp [hid, hd]
        · simp [hid, hnone]
      · obtain ⟨hlookup, hanswer, -⟩ := clearRequest_frame hs₁ heq
        simp [hlookup, hanswer, heq]
    · rw [hsent, hanswers]
      obtain ⟨d, hd, rfl⟩ | ⟨hnone, rfl⟩ := hround
      · rw [List.filterMap_cons_some hd, List.reverse_cons, List.append_assoc]
        rfl
      · rw [List.filterMap_cons_none hnone]
    · obtain rfl | hid' := List.mem_cons.mp hid'
      · exact hclear
      · exact (clearRequest_frame hs₁ (hne id' hid')).2.2.mp (hclears id' hid')

theorem exists_foldlM_clearRequest (hl : l.Nodup)
    (h : ∀ id ∈ l, id ∈ s.requestMap ∧ s.Clearable id) :
    ∃ r, l.foldlM clearRequest s = some r := by
  induction l generalizing s with
  | nil => exact ⟨s, rfl⟩
  | cons id l ih =>
    obtain ⟨hid, hl⟩ := List.nodup_cons.mp hl
    obtain ⟨hrequest, hclear⟩ := h id List.mem_cons_self
    obtain ⟨s₁, hs₁⟩ := exists_clearRequest hrequest hclear
    rw [List.foldlM_cons, hs₁]
    refine ih hl fun id' hid' => ?_
    obtain ⟨hlookup, -, hclears⟩ := clearRequest_frame hs₁ fun heq => hid (heq ▸ hid')
    obtain ⟨hrequest', hclear'⟩ := h id' (List.mem_cons_of_mem id hid')
    refine ⟨?_, hclears.mpr hclear'⟩
    rw [← AList.lookup_isSome, hlookup, AList.lookup_isSome]
    exact hrequest'

/-- **The cache is cleared** exactly if every client with a cached request has a response, whose
size fits if it is for that request. -/
theorem exists_clearRequestCache_iff :
    (∃ r, s.clearRequestCache = some r) ↔ ∀ id ∈ s.requestMap, s.Clearable id := by
  constructor
  · intro ⟨r, hr⟩ id hid
    exact (cleared_of_foldlM s.nodup_cachedIds hr).2 id (mem_cachedIds.mpr hid)
  · intro h
    refine exists_foldlM_clearRequest s.nodup_cachedIds fun id hid => ?_
    have hmem := mem_cachedIds.mp hid
    exact ⟨hmem, h id hmem⟩

theorem cleared_of_clearRequestCache (h : s.clearRequestCache = some r) : Cleared s.cachedIds s r :=
  (cleared_of_foldlM s.nodup_cachedIds h).1

end Replica

end Falcon.Diomedes
