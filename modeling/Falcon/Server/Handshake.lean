import Falcon.Machinery.Bytes
import Mathlib.Data.List.GetD
import Mathlib.Data.List.Induction

/-!
# Server/Handshake — the handshake of a client of `pfdserver`

`ClientHandler` reads a `pfd_server_handshake`, which is four names in arrays of `HOSTNAME_SIZE`
characters, and monitors the target with these names.  It calls `recv` until it has as many bytes as
the structure, but always with the address of the structure, so that each chunk is written over the
ones before it.

* `getD_overlaid` — a byte of the structure comes from the last chunk that is longer than its
  position.
* `received_iff` — so a handshake that is split arrives only if its bytes happen to repeat.
-/

namespace Falcon.PfdServer

/-- `HOSTNAME_SIZE`. -/
def hostnameSize : ℕ := 128

/-- `sizeof(pfd_server_handshake)`. -/
def sizeofHandshake : ℕ := 4 * hostnameSize

/-- What is in the structure after a `recv` has returned a chunk. -/
def recvInto (handshake chunk : Bytes) : Bytes := chunk ++ handshake.drop chunk.length

/-- The receive loop: the structure, `recv_size`, and the chunks still to come.  When there are no
more of them, `recv` returns 0. -/
def recvLoop : Bytes → ℕ → List Bytes → Bytes × ℕ
  | handshake, recvSize, [] => (handshake, recvSize)
  | handshake, recvSize, chunk :: chunks =>
    let handshake := recvInto handshake chunk
    let recvSize := recvSize + chunk.length
    if recvSize ≠ sizeofHandshake ∧ 0 < chunk.length then recvLoop handshake recvSize chunks
    else (handshake, recvSize)

/-- A name of the structure as a string: it ends at a null byte. -/
def nameAt (handshake : Bytes) (i : ℕ) : Bytes :=
  (handshake.drop (i * hostnameSize)).takeWhile (· ≠ 0)

/-- The `LayerIdList` that is given to `init`: handle, host, hypervisor and switch. -/
def layerIds (handshake : Bytes) : List Bytes := (List.range 4).map (nameAt handshake)

/-- `ClientHandler`: the handshake it works with and the layer ids it monitors; there is no result
if it closes the connection. -/
def clientHandler (chunks : List Bytes) : Option (Bytes × List Bytes) :=
  let (handshake, recvSize) := recvLoop (Bytes.zeros sizeofHandshake) 0 chunks
  if recvSize ≠ sizeofHandshake then none else some (handshake, layerIds handshake)

/-- A handshake in non-empty chunks. -/
structure Splitting (chunks : List Bytes) : Prop where
  size : chunks.flatten.length = sizeofHandshake
  ne_nil : ∀ c ∈ chunks, c ≠ []

/-- The handler gets the handshake that has been sent, and monitors what the client has named. -/
def Received (chunks : List Bytes) : Prop :=
  clientHandler chunks = some (chunks.flatten, layerIds chunks.flatten)

/-- The byte at a position of the last chunk that is longer; 0 if there is none. -/
def lastByte (chunks : List Bytes) (p : ℕ) : UInt8 :=
  ((chunks.filter fun c => p < c.length).getLast?.getD []).getD p 0

variable {chunks : List Bytes} {h c : Bytes} {n p : ℕ}

/-! ## The loop -/

theorem length_recvInto (hc : c.length ≤ h.length) : (recvInto h c).length = h.length := by
  rw [recvInto, List.length_append, List.length_drop]
  omega

theorem getD_recvInto (h c : Bytes) (p : ℕ) :
    (recvInto h c).getD p 0 = if p < c.length then c.getD p 0 else h.getD p 0 := by
  rw [recvInto]
  split_ifs with hp
  · rw [List.getD_append _ _ _ _ hp]
  · rw [List.getD_append_right _ _ _ _ (not_lt.mp hp)]
    simp only [List.getD_eq_getElem?_getD, List.getElem?_drop]
    rw [Nat.add_sub_cancel' (not_lt.mp hp)]

/-- The loop takes all chunks of a handshake. -/
theorem recvLoop_eq (hsize : n + chunks.flatten.length = sizeofHandshake)
    (hne : ∀ c ∈ chunks, c ≠ []) :
    recvLoop h n chunks = (chunks.foldl recvInto h, sizeofHandshake) := by
  induction chunks generalizing h n with
  | nil => rw [recvLoop, List.foldl_nil, ← hsize, List.flatten_nil, List.length_nil, Nat.add_zero]
  | cons c chunks ih =>
    obtain ⟨hc, hne⟩ := List.forall_mem_cons.mp hne
    have hpos : 0 < c.length := List.length_pos_iff.mpr hc
    rw [List.flatten_cons, List.length_append] at hsize
    rw [recvLoop, List.foldl_cons]
    split_ifs with hlast
    · exact ih (by omega) hne
    · have hfull : n + c.length = sizeofHandshake := by
        by_contra hn
        exact hlast ⟨hn, hpos⟩
      have hnil : chunks = [] := List.eq_nil_iff_forall_not_mem.mpr fun c' hc' => by
        have hle : c'.length ≤ chunks.flatten.length := (List.sublist_flatten_of_mem hc').length_le
        have hpos' : 0 < c'.length := List.length_pos_iff.mpr (hne c' hc')
        omega
      rw [hnil, List.foldl_nil, hfull]

/-- **Chunks over chunks.** -/
theorem getD_overlaid (h : Bytes) (p : ℕ) (hp : h.getD p 0 = 0) :
    (chunks.foldl recvInto h).getD p 0 = lastByte chunks p := by
  induction chunks using List.reverseRecOn with
  | nil => exact hp
  | append_singleton chunks c ih =>
    rw [List.foldl_append, List.foldl_cons, List.foldl_nil, getD_recvInto, lastByte,
      List.filter_append]
    split_ifs with hc
    · simp [hc]
    · rw [ih, lastByte]
      simp [hc]

theorem length_overlaid (hle : ∀ c ∈ chunks, c.length ≤ h.length) :
    (chunks.foldl recvInto h).length = h.length := by
  induction chunks generalizing h with
  | nil => rfl
  | cons c chunks ih =>
    obtain ⟨hc, hle⟩ := List.forall_mem_cons.mp hle
    have hlen := length_recvInto hc
    rw [List.foldl_cons, ih (by rwa [hlen]), hlen]

/-! ## What arrives -/

theorem Splitting.length_le (hs : Splitting chunks) (hc : c ∈ chunks) :
    c.length ≤ sizeofHandshake :=
  hs.size ▸ (List.sublist_flatten_of_mem hc).length_le

theorem Splitting.handler_eq (hs : Splitting chunks) : clientHandler chunks =
    some (chunks.foldl recvInto (Bytes.zeros sizeofHandshake),
      layerIds (chunks.foldl recvInto (Bytes.zeros sizeofHandshake))) := by
  rw [clientHandler, recvLoop_eq (by rw [Nat.zero_add, hs.size]) hs.ne_nil]
  rfl

/-- The handshake arrives if each of its bytes is the one that is written to its place last. -/
theorem Splitting.received_iff_bytes (hs : Splitting chunks) : Received chunks ↔
    ∀ p < sizeofHandshake, chunks.flatten.getD p 0 = lastByte chunks p := by
  have hlen : (chunks.foldl recvInto (Bytes.zeros sizeofHandshake)).length = sizeofHandshake := by
    rw [length_overlaid fun c hc => by rw [Bytes.length_zeros]; exact hs.length_le hc,
      Bytes.length_zeros]
  have hlast : ∀ p, (chunks.foldl recvInto (Bytes.zeros sizeofHandshake)).getD p 0 =
      lastByte chunks p := fun p => getD_overlaid _ p (by
    rw [Bytes.zeros, List.getD_eq_getElem?_getD, List.getElem?_replicate]
    split_ifs <;> rfl)
  rw [Received, hs.handler_eq]
  constructor
  · intro h p _
    rw [← hlast, (Prod.mk.inj (Option.some.inj h)).1]
  · intro h
    have heq : chunks.foldl recvInto (Bytes.zeros sizeofHandshake) = chunks.flatten := by
      refine List.ext_getElem (hlen.trans hs.size.symm) fun p hp hp' => ?_
      rw [← List.getD_eq_getElem _ 0 hp, ← List.getD_eq_getElem _ 0 hp', hlast,
        h p (hs.size ▸ hp')]
    rw [heq]

/-- A chunk of a handshake in two or more chunks is smaller than the handshake. -/
theorem Splitting.length_lt (hs : Splitting chunks) (htwo : chunks.length ≠ 1) (hc : c ∈ chunks) :
    c.length < sizeofHandshake := by
  obtain ⟨pre, post, rfl⟩ := List.append_of_mem hc
  have hsum : pre.flatten.length + (c.length + post.flatten.length) = sizeofHandshake := by
    rw [← hs.size, List.flatten_append, List.flatten_cons, List.length_append, List.length_append]
  have hsome : pre ≠ [] ∨ post ≠ [] := by
    by_contra hnone
    obtain ⟨hpre, hpost⟩ := not_or.mp hnone
    rw [not_not.mp hpre, not_not.mp hpost] at htwo
    exact htwo rfl
  have hpos : ∀ l : List Bytes, (∀ d ∈ l, d ≠ []) → l ≠ [] → 0 < l.flatten.length := by
    intro l hl hne
    obtain ⟨d, l, rfl⟩ := List.exists_cons_of_ne_nil hne
    have hd : 0 < d.length := List.length_pos_iff.mpr (hl d List.mem_cons_self)
    rw [List.flatten_cons, List.length_append]
    omega
  obtain hpre | hpost := hsome
  · have := hpos pre (fun d hd => hs.ne_nil d (by simp [hd])) hpre
    omega
  · have := hpos post (fun d hd => hs.ne_nil d (by simp [hd])) hpost
    omega

/-- The handshake of ones, in chunks of the same lengths. -/
def ones (chunks : List Bytes) : List Bytes := chunks.map fun c => List.replicate c.length 1

theorem length_ones (chunks : List Bytes) :
    (ones chunks).map List.length = chunks.map List.length := by
  simp [ones]

/-- Chunks of the same lengths are a handshake too. -/
theorem Splitting.of_length (hs : Splitting chunks) {chunks' : List Bytes}
    (hlen : chunks'.map List.length = chunks.map List.length) : Splitting chunks' := by
  refine ⟨?_, fun c hc => ?_⟩
  · rw [List.length_flatten, hlen, ← List.length_flatten, hs.size]
  · have hmem : c.length ∈ chunks.map List.length := hlen ▸ List.mem_map_of_mem hc
    obtain ⟨d, hd, heq⟩ := List.mem_map.mp hmem
    exact List.length_pos_iff.mp (heq ▸ List.length_pos_iff.mpr (hs.ne_nil d hd))

/-- **The handshake depends on how TCP splits it.**  It is received exactly if each of its bytes is
the one at its position in the last chunk that is longer.  A way of splitting is right for every
handshake exactly if it does not split. -/
theorem received_iff (hs : Splitting chunks) :
    (Received chunks ↔ ∀ p < sizeofHandshake, chunks.flatten.getD p 0 = lastByte chunks p) ∧
      ((∀ chunks' : List Bytes, chunks'.map List.length = chunks.map List.length →
        Received chunks') ↔ chunks.length = 1) := by
  refine ⟨hs.received_iff_bytes, fun hall => ?_, fun hone chunks' hlen => ?_⟩
  · by_contra htwo
    have hones : Splitting (ones chunks) := hs.of_length (length_ones chunks)
    have hlast := hones.received_iff_bytes.mp (hall _ (length_ones chunks)) (sizeofHandshake - 1)
      (by decide)
    -- no chunk reaches the last byte
    have hnone : (ones chunks).filter (fun c => sizeofHandshake - 1 < c.length) = [] := by
      refine List.filter_eq_nil_iff.mpr fun c hc => ?_
      have hlt := hones.length_lt (by rwa [ones, List.length_map]) hc
      simp only [decide_eq_true_eq, not_lt]
      omega
    have hbyte : (ones chunks).flatten.getD (sizeofHandshake - 1) 0 = 1 := by
      have hlt : sizeofHandshake - 1 < (ones chunks).flatten.length := by
        rw [hones.size]
        decide
      rw [List.getD_eq_getElem _ _ hlt]
      have hmem := List.getElem_mem hlt
      obtain ⟨c, hc, hmem⟩ := List.mem_flatten.mp hmem
      obtain ⟨d, -, rfl⟩ := List.mem_map.mp hc
      exact List.eq_of_mem_replicate hmem
    rw [hbyte, lastByte, hnone] at hlast
    exact absurd hlast (by decide)
  · have hs' := hs.of_length hlen
    have hone' : chunks'.length = 1 := by
      rw [← List.length_map (f := List.length), hlen, List.length_map, hone]
    obtain ⟨c, rfl⟩ := List.length_eq_one_iff.mp hone'
    refine hs'.received_iff_bytes.mpr fun p hp => ?_
    have hsize : c.length = sizeofHandshake := by simpa using hs'.size
    simp [lastByte, hsize, hp]

/-- A name in its array. -/
def field (name : List Char) : Bytes :=
  name.map Char.toUInt8 ++ Bytes.zeros (hostnameSize - name.length)

/-- The handshake for `app` on `host` under `vmm` and `sw`, in two halves. -/
def halves : List Bytes :=
  [field ['a', 'p', 'p'] ++ field ['h', 'o', 's', 't'], field ['v', 'm', 'm'] ++ field ['s', 'w']]

set_option maxRecDepth 4000 in
theorem splitting_whole : Splitting [halves.flatten] := ⟨by decide, by decide⟩

/-- The handshake for no handle on `host` under `vmm` and no switch, in two pieces; the bytes of the
second one are those the first one begins with. -/
def repeated : List Bytes :=
  [field [] ++ field ['h', 'o', 's', 't'] ++ field ['v', 'm', 'm'], field []]

set_option maxRecDepth 4000 in
theorem splitting_repeated : Splitting repeated := ⟨rfl, by decide⟩

/-- In one piece it is received; and in two, when what is written over is the same. -/
theorem received_whole : Received [halves.flatten] ∧ Received repeated :=
  ⟨(received_iff splitting_whole).2.mpr rfl _ rfl,
    (received_iff splitting_repeated).1.mpr (by decide +kernel)⟩

set_option maxRecDepth 4000 in
/-- In two pieces the second half is written over the first one: the handler monitors `vmm` on `sw`
under two empty names. -/
theorem not_received_halves : Splitting halves ∧ ¬ Received halves ∧
    (clientHandler halves).map Prod.snd =
      some [['v', 'm', 'm'].map Char.toUInt8, ['s', 'w'].map Char.toUInt8, [], []] := by
  have hs : Splitting halves := ⟨rfl, by decide⟩
  refine ⟨hs, fun h => ?_, by decide⟩
  exact absurd (hs.received_iff_bytes.mp h 0 (by decide)) (by decide)

end Falcon.PfdServer
