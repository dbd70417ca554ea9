import Falcon.Machinery.Ordered
import Falcon.Machinery.Run
import Mathlib.Data.UInt

/-!
# Diomedes/Proxy — the proxy between clients and the group

A client connects to the proxy, which gives it an id, puts the id on its requests, and finds the
connection for a response from its id again: the id leads to the address of the client, and this to
a file descriptor.  The kernel hands a descriptor out again once its connection is closed.

Addresses are keys of a `std::map` whose `operator<` asks that the address **and** the port are
less.  Two clients on one machine are the same key, and so are all whose ports are not in the order
of their addresses.  (Where this likeness is not transitive `std::map` promises nothing at all.)

* `safe_iff` — the run of a proxy in which whatever comes next is routed right, all along, is one
  that accepts at most 2¹⁶ clients, no two of them alike, and none on a descriptor that the proxy
  still has for another.
-/

namespace Falcon.Diomedes

open Ordered

/-! ## The program -/

/-- `client_info`. -/
structure ClientInfo where
  addr : UInt32
  port : UInt16
  deriving DecidableEq, Repr

/-- `operator<`. -/
def ClientInfo.lt (a c : ClientInfo) : Bool := a.addr < c.addr && a.port < c.port

/-- The constructor without arguments. -/
def ClientInfo.zero : ClientInfo := ⟨0, 0⟩

/-- The order of the ids. -/
def idLt (a b : UInt32) : Bool := a < b

/-- A connection, as the kernel has it. -/
structure Conn where
  fd : ℤ
  peer : ClientInfo
  isOpen : Bool
  deriving DecidableEq, Repr

/-- What the proxy sends: a request it read from a connection, under an id, or a response for an id,
to a connection.  Connections are numbered as they were accepted. -/
inductive Output
  | request (conn : ℕ) (clientId : UInt32)
  | response (conn : ℕ) (clientId : UInt32)
  deriving DecidableEq, Repr

def Output.conn : Output → ℕ
  | .request conn _ => conn
  | .response conn _ => conn

def Output.clientId : Output → UInt32
  | .request _ clientId => clientId
  | .response _ clientId => clientId

/-- The static variables, with the connections and what has been sent. -/
structure Proxy where
  nextClientId : UInt16
  /-- `client_info_to_client_`. -/
  clientOf : List (ClientInfo × ℤ)
  /-- `client_info_to_client_id_`. -/
  idOf : List (ClientInfo × UInt32)
  /-- `client_id_to_client_info_`. -/
  infoOf : List (UInt32 × ClientInfo)
  conns : List Conn
  log : List Output
  deriving DecidableEq, Repr

namespace Proxy

def init : Proxy := ⟨0, [], [], [], [], []⟩

/-- `my_id_`, which is never set. -/
def myId : UInt32 := 0

/-- The open connection on a descriptor. -/
def connOn (fd : ℤ) (t : Proxy) : Option ℕ := t.conns.findIdx? fun c => c.isOpen && c.fd = fd

def close (fd : ℤ) (t : Proxy) : Proxy :=
  { t with conns := t.conns.map fun c => if c.fd = fd then { c with isOpen := false } else c }

/-- `AcceptNewClient`. -/
def acceptNewClient (fd : ℤ) (peer : ClientInfo) (t : Proxy) : Proxy :=
  let id := myId ||| t.nextClientId.toUInt32
  { t with
    clientOf := assign ClientInfo.lt peer fd t.clientOf
    nextClientId := t.nextClientId + 1
    idOf := assign ClientInfo.lt peer id t.idOf
    infoOf := assign idLt id peer t.infoOf
    conns := t.conns ++ [⟨fd, peer, true⟩] }

/-- `ProcessClientRequest` for the connection `i` on `fd`: `getpeername` may fail, and `recv`
returns `received`, which goes into a `uint16_t`. -/
def processClientRequest (fd : ℤ) (i : ℕ) (info : ClientInfo) (named : Bool) (received : ℤ)
    (t : Proxy) : Proxy :=
  if !named then t.close fd
  else if UInt16.ofInt received ≤ 0 then
    { t.close fd with clientOf := assign ClientInfo.lt info (-1) t.clientOf }
  else
    let r := fetch ClientInfo.lt 0 info t.idOf
    { t with idOf := r.2, log := .request i r.1 :: t.log }

/-- The end of `ProcessDiomedesResponse`, which never closes stdin; `sent` says whether `send` takes
all of the response. -/
def deliver (id : UInt32) (sent : Bool) (client : ℤ) (t : Proxy) : Proxy :=
  if client ≤ 0 then t
  else
    match t.connOn client with
    | none => t
    | some i =>
      let t := { t with log := .response i id :: t.log }
      if sent then t else t.close client

/-- `ProcessDiomedesResponse` for the id in the message. -/
def processDiomedesResponse (id : UInt32) (sent : Bool) (t : Proxy) : Proxy :=
  let r := fetch idLt ClientInfo.zero id t.infoOf
  let q := fetch ClientInfo.lt 0 r.1 t.clientOf
  deliver id sent q.1 { t with infoOf := r.2, clientOf := q.2 }

inductive Event
  | accept (fd : ℤ) (peer : ClientInfo)
  /-- A connection can be read. -/
  | readable (fd : ℤ) (named : Bool) (received : ℤ)
  | response (id : UInt32) (sent : Bool)
  deriving DecidableEq, Repr

/-- `ProxyRun`.  The kernel accepts on a descriptor that is not open, and 0 is; it reports those
that are; and peers have an address and a port. -/
def step (t : Proxy) : Event → Option Proxy
  | .accept fd peer =>
    if 0 < fd ∧ t.connOn fd = none ∧ 0 < peer.addr ∧ 0 < peer.port then
      some (t.acceptNewClient fd peer)
    else none
  | .readable fd named received =>
    (t.connOn fd).bind fun i => t.conns[i]?.map fun c =>
      t.processClientRequest fd i c.peer named received
  | .response id sent => some (t.processDiomedesResponse id sent)

/-! ## What should not go wrong -/

/-- Everything that has been sent has the id of its connection, the number it was accepted under. -/
def Owned (t : Proxy) : Prop := ∀ o ∈ t.log, o.clientId.toNat = o.conn

/-- All has gone right, and the next thing will, whatever it is. -/
def Safe (t : Proxy) : Prop := t.Owned ∧ ∀ e t', step t e = some t' → t'.Owned

/-- An accept that can do no harm. -/
def Careful (t : Proxy) (e : Event) : Prop :=
  ∀ fd peer, e = .accept fd peer → t.conns.length < 2 ^ 16 ∧
    ∀ c ∈ t.conns, same ClientInfo.lt c.peer peer = false ∧
      find ClientInfo.lt c.peer t.clientOf ≠ some fd

/-! ## The invariant -/

variable {t t' : Proxy} {e : Event} {c : Conn} {i : ℕ} {id : UInt32} {fd : ℤ}
  {info peer : ClientInfo}

theorem lt_irrefl (a : ClientInfo) : ClientInfo.lt a a = false := by simp [ClientInfo.lt]

theorem same_self (a : ClientInfo) : same ClientInfo.lt a a = true := by
  simp [same, lt_irrefl]

/-- Ids are told apart. -/
theorem separates_idLt : Separates idLt fun _ => True := by
  intro a b _ _
  simp only [same, idLt, Bool.and_eq_true, Bool.not_eq_true', decide_eq_false_iff_not,
    UInt32.not_lt]
  exact ⟨fun h => UInt32.le_antisymm h.2 h.1, fun h => h ▸ ⟨UInt32.le_refl _, UInt32.le_refl _⟩⟩

/-- A peer comes after what is looked up for no client. -/
theorem zero_lt (haddr : 0 < peer.addr) (hport : 0 < peer.port) :
    same ClientInfo.lt .zero peer = false := by
  simp [same, ClientInfo.lt, ClientInfo.zero, haddr, hport]

/-- The addresses the proxy has seen. -/
def Seen (t : Proxy) (k : ClientInfo) : Prop := k = .zero ∨ ∃ c ∈ t.conns, c.peer = k

/-- **The tables say who is who**: an id leads to the peer of its connection, and this back to the
id and to its descriptor, until the connection is given up. -/
structure Routed (t : Proxy) : Prop where
  few : t.conns.length ≤ 2 ^ 16
  next : t.nextClientId.toNat = t.conns.length % 2 ^ 16
  separates : Separates ClientInfo.lt t.Seen
  distinct : ∀ (i j : ℕ) (c d : Conn), t.conns[i]? = some c → t.conns[j]? = some d →
    c.peer = d.peer → i = j
  valid : ∀ c ∈ t.conns, 0 < c.fd ∧ c.peer ≠ .zero
  infoOf : ∀ i c, t.conns[i]? = some c → find idLt (UInt32.ofNat i) t.infoOf = some c.peer
  noInfo : ∀ id, t.conns.length ≤ id.toNat →
    find idLt id t.infoOf = none ∨ find idLt id t.infoOf = some .zero
  idOf : ∀ i c, t.conns[i]? = some c → find ClientInfo.lt c.peer t.idOf = some (UInt32.ofNat i)
  idKeys : ∀ x ∈ t.idOf, t.Seen x.1
  clientOf : ∀ c ∈ t.conns, find ClientInfo.lt c.peer t.clientOf = some c.fd ∨
    find ClientInfo.lt c.peer t.clientOf = some (-1)
  noClient : find ClientInfo.lt .zero t.clientOf = none ∨
    find ClientInfo.lt .zero t.clientOf = some 0
  clientKeys : ∀ x ∈ t.clientOf, t.Seen x.1
  /-- What is open on a descriptor the proxy has for a client is the client's own connection. -/
  own : ∀ (i j : ℕ) (c d : Conn), t.conns[i]? = some c → t.conns[j]? = some d → d.isOpen = true →
    find ClientInfo.lt c.peer t.clientOf = some d.fd → j = i
  owned : t.Owned

theorem routed_init : init.Routed where
  few := Nat.zero_le _
  next := rfl
  separates := by
    rintro a b (rfl | ⟨c, hc, -⟩) (rfl | ⟨d, hd, -⟩)
    · exact iff_of_true (same_self _) rfl
    · exact (List.not_mem_nil hd).elim
    · exact (List.not_mem_nil hc).elim
    · exact (List.not_mem_nil hc).elim
  distinct _ _ _ _ h := by cases h
  valid _ h := (List.not_mem_nil h).elim
  infoOf _ _ h := by cases h
  noInfo _ _ := Or.inl rfl
  idOf _ _ h := by cases h
  idKeys _ h := (List.not_mem_nil h).elim
  clientOf _ h := (List.not_mem_nil h).elim
  noClient := Or.inl rfl
  clientKeys _ h := (List.not_mem_nil h).elim
  own _ _ _ _ h := by cases h
  owned _ h := (List.not_mem_nil h).elim

/-- A connection has its number for its id. -/
theorem Routed.toNat_ofNat (ht : t.Routed) (hc : t.conns[i]? = some c) :
    (UInt32.ofNat i).toNat = i := by
  have hlt := (List.getElem?_eq_some_iff.mp hc).1
  have hfew := ht.few
  rw [UInt32.toNat_ofNat', Nat.mod_eq_of_lt (by omega)]

theorem Routed.toNat_lt (ht : t.Routed) (hc : t.conns[i]? = some c) :
    (UInt32.ofNat i).toNat < t.conns.length :=
  (ht.toNat_ofNat hc).symm ▸ (List.getElem?_eq_some_iff.mp hc).1

/-- The next id is nobody's yet. -/
theorem Routed.toNat_ne (ht : t.Routed) (hc : t.conns[i]? = some c) :
    (UInt32.ofNat i).toNat ≠ t.conns.length := Nat.ne_of_lt (ht.toNat_lt hc)

theorem connOn_eq (h : t.connOn fd = some i) :
    ∃ c, t.conns[i]? = some c ∧ c.isOpen = true ∧ c.fd = fd := by
  obtain ⟨hlt, hc, -⟩ := List.findIdx?_eq_some_iff_getElem.mp h
  rw [Bool.and_eq_true, decide_eq_true_eq] at hc
  exact ⟨_, List.getElem?_eq_getElem hlt, hc⟩

/-! ## Requests and responses -/

/-- What is closed was open. -/
theorem getElem?_close {d : Conn} (h : (t.close fd).conns[i]? = some d) :
    ∃ c, t.conns[i]? = some c ∧ d.fd = c.fd ∧ d.peer = c.peer ∧
      (d.isOpen = true → c.isOpen = true) := by
  simp only [close, List.getElem?_map, Option.map_eq_some_iff] at h
  obtain ⟨c, hc, rfl⟩ := h
  refine ⟨c, hc, ?_⟩
  split
  · exact ⟨rfl, rfl, fun h => by cases h⟩
  · exact ⟨rfl, rfl, id⟩

theorem mem_close {d : Conn} (h : d ∈ (t.close fd).conns) :
    ∃ c ∈ t.conns, d.fd = c.fd ∧ d.peer = c.peer := by
  obtain ⟨i, hi⟩ := List.mem_iff_getElem?.mp h
  obtain ⟨c, hc, hfd, hpeer, -⟩ := getElem?_close hi
  exact ⟨c, List.mem_of_getElem? hc, hfd, hpeer⟩

theorem seen_close {k : ClientInfo} : (t.close fd).Seen k ↔ t.Seen k := by
  refine or_congr Iff.rfl ⟨?_, ?_⟩
  · rintro ⟨d, hd, rfl⟩
    obtain ⟨c, hc, -, hpeer⟩ := mem_close hd
    exact ⟨c, hc, hpeer.symm⟩
  · rintro ⟨c, hc, rfl⟩
    exact ⟨_, List.mem_map.mpr ⟨c, hc, rfl⟩, by split <;> rfl⟩

theorem Routed.close (ht : t.Routed) (fd : ℤ) : (t.close fd).Routed where
  few := by simpa [Proxy.close] using ht.few
  next := by simpa [Proxy.close] using ht.next
  separates a b ha hb := ht.separates a b (seen_close.mp ha) (seen_close.mp hb)
  distinct i j c d hc hd h := by
    obtain ⟨c', hc', -, hpeer, -⟩ := getElem?_close hc
    obtain ⟨d', hd', -, hpeer', -⟩ := getElem?_close hd
    exact ht.distinct i j c' d' hc' hd' (by rw [← hpeer, ← hpeer', h])
  valid d hd := by
    obtain ⟨c, hc, hfd, hpeer⟩ := mem_close hd
    rw [hfd, hpeer]
    exact ht.valid c hc
  infoOf i d hd := by
    obtain ⟨c, hc, -, hpeer, -⟩ := getElem?_close hd
    rw [hpeer]
    exact ht.infoOf i c hc
  noInfo id h := ht.noInfo id (by simpa [Proxy.close] using h)
  idOf i d hd := by
    obtain ⟨c, hc, -, hpeer, -⟩ := getElem?_close hd
    rw [hpeer]
    exact ht.idOf i c hc
  idKeys x hx := seen_close.mpr (ht.idKeys x hx)
  clientOf d hd := by
    obtain ⟨c, hc, hfd, hpeer⟩ := mem_close hd
    rw [hfd, hpeer]
    exact ht.clientOf c hc
  noClient := ht.noClient
  clientKeys x hx := seen_close.mpr (ht.clientKeys x hx)
  own i j c d hc hd hopen h := by
    obtain ⟨c', hc', -, hpeer, -⟩ := getElem?_close hc
    obtain ⟨d', hd', hfd', -, hopen'⟩ := getElem?_close hd
    rw [hpeer, hfd'] at h
    exact ht.own i j c' d' hc' hd' (hopen' hopen) h
  owned := ht.owned

/-- Something is sent under the right id. -/
theorem Routed.send (ht : t.Routed) {o : Output} (ho : o.clientId.toNat = o.conn) :
    Routed { t with log := o :: t.log } :=
  { ht with owned := fun o' ho' => (List.mem_cons.mp ho').elim (fun h => h ▸ ho) (ht.owned o') }

/-- A value that is not a descriptor in use is entered for an address that has been seen. -/
theorem Routed.assignClient (ht : t.Routed) (hinfo : t.Seen info) (hfd : fd ≤ 0)
    (hconn : ∀ c ∈ t.conns, c.peer = info → fd = -1)
    (hzero : info = .zero → fd = 0) :
    Routed { t with clientOf := assign ClientInfo.lt info fd t.clientOf } := by
  have hfind : ∀ k, t.Seen k → info ≠ k →
      find ClientInfo.lt k (assign ClientInfo.lt info fd t.clientOf) =
        find ClientInfo.lt k t.clientOf :=
    fun k hk hne => find_assign_of_ne ht.separates ht.clientKeys hinfo hk hne
  have hself : find ClientInfo.lt info (assign ClientInfo.lt info fd t.clientOf) = some fd :=
    find_assign_self (same_self info)
  refine { ht with
    clientOf := fun c hc => ?_
    noClient := ?_
    clientKeys := keys_assign ht.clientKeys hinfo
    own := fun i j c d hc hd hopen h => ?_ }
  · by_cases heq : info = c.peer
    · rw [← heq, hself, hconn c hc heq.symm]
      exact Or.inr rfl
    · rw [hfind c.peer (Or.inr ⟨c, hc, rfl⟩) heq]
      exact ht.clientOf c hc
  · by_cases heq : info = .zero
    · rw [← heq, hself, hzero heq]
      exact Or.inr rfl
    · rw [hfind .zero (Or.inl rfl) heq]
      exact ht.noClient
  · have hpos := (ht.valid d (List.mem_of_getElem? hd)).1
    have h' : find ClientInfo.lt c.peer (assign ClientInfo.lt info fd t.clientOf) = some d.fd := h
    by_cases heq : info = c.peer
    · rw [← heq, hself] at h'
      have := Option.some.inj h'
      omega
    · rw [hfind c.peer (Or.inr ⟨c, List.mem_of_getElem? hc, rfl⟩) heq] at h'
      exact ht.own i j c d hc hd hopen h'

/-- An id that nobody has is looked up. -/
theorem Routed.assignInfo (ht : t.Routed) (hid : t.conns.length ≤ id.toNat) :
    Routed { t with infoOf := assign idLt id .zero t.infoOf } := by
  refine { ht with infoOf := fun i c hc => ?_, noInfo := fun id' h => ?_ }
  · have hne : id ≠ UInt32.ofNat i := by
      rintro rfl
      exact Nat.not_lt.mpr hid (ht.toNat_lt hc)
    rw [find_assign_of_ne separates_idLt (fun _ _ => trivial) trivial trivial hne]
    exact ht.infoOf i c hc
  · by_cases heq : id = id'
    · exact Or.inr (heq ▸ find_assign_self ((separates_idLt id id trivial trivial).mpr rfl))
    · rw [find_assign_of_ne separates_idLt (fun _ _ => trivial) trivial trivial heq]
      exact ht.noInfo id' h

/-- **A request** goes out under the id of its connection. -/
theorem Routed.processClientRequest (ht : t.Routed) (hc : t.conns[i]? = some c) (named : Bool)
    (received : ℤ) : (t.processClientRequest fd i c.peer named received).Routed := by
  have hmem := List.mem_of_getElem? hc
  unfold Proxy.processClientRequest
  split
  · exact ht.close fd
  · split
    · refine (ht.close fd).assignClient (seen_close.mpr (Or.inr ⟨c, hmem, rfl⟩)) (by omega)
        (fun _ _ _ => rfl) fun h => ?_
      exact ((ht.valid c hmem).2 h).elim
    · rw [fetch_of_find (ht.idOf i c hc)]
      exact ht.send (ht.toNat_ofNat hc)

/-- A response is delivered to the owner of its id. -/
theorem Routed.deliver (ht : t.Routed) (sent : Bool)
    (howner : ∀ j, t.connOn fd = some j → id.toNat = j) : (t.deliver id sent fd).Routed := by
  unfold Proxy.deliver
  split
  · exact ht
  · split
    · exact ht
    · next j hj =>
      have hsent := ht.send (o := .response j id) (howner j hj)
      dsimp only
      split
      · exact hsent
      · exact hsent.close fd

theorem processDiomedesResponse_eq {sent : Bool} {infoOf' : List (UInt32 × ClientInfo)}
    {clientOf' : List (ClientInfo × ℤ)}
    (hinfo : fetch idLt ClientInfo.zero id t.infoOf = (info, infoOf'))
    (hclient : fetch ClientInfo.lt 0 info t.clientOf = (fd, clientOf')) :
    t.processDiomedesResponse id sent =
      deliver id sent fd { t with infoOf := infoOf', clientOf := clientOf' } := by
  unfold processDiomedesResponse
  rw [hinfo]
  dsimp only
  rw [hclient]

/-- **A response** goes to the connection of its id, or to nobody. -/
theorem Routed.processDiomedesResponse (ht : t.Routed) (id : UInt32) (sent : Bool) :
    (t.processDiomedesResponse id sent).Routed := by
  by_cases hid : id.toNat < t.conns.length
  · obtain ⟨c, hc⟩ : ∃ c, t.conns[id.toNat]? = some c := ⟨_, List.getElem?_eq_getElem hid⟩
    have hinfo := ht.infoOf _ c hc
    rw [UInt32.ofNat_toNat] at hinfo
    obtain hfd | hfd := ht.clientOf c (List.mem_of_getElem? hc)
    · rw [processDiomedesResponse_eq (fetch_of_find hinfo) (fetch_of_find hfd)]
      refine ht.deliver sent fun j hj => ?_
      obtain ⟨d, hd, hopen, heq⟩ := connOn_eq hj
      exact (ht.own _ j c d hc hd hopen (heq ▸ hfd)).symm
    · rw [processDiomedesResponse_eq (fetch_of_find hinfo) (fetch_of_find hfd)]
      exact ht
  · -- nobody has the id
    have hid := Nat.not_lt.mp hid
    obtain ⟨infoOf', hinfo, ht'⟩ : ∃ infoOf',
        fetch idLt ClientInfo.zero id t.infoOf = (ClientInfo.zero, infoOf') ∧
          Routed { t with infoOf := infoOf' } := by
      obtain h | h := ht.noInfo id hid
      · exact ⟨_, fetch_of_none h, ht.assignInfo hid⟩
      · exact ⟨_, fetch_of_find h, ht⟩
    obtain h | h := ht.noClient
    · rw [processDiomedesResponse_eq hinfo (fetch_of_none h)]
      refine ht'.assignClient (Or.inl rfl) (by omega) (fun c hc h => ?_) fun _ => rfl
      exact ((ht.valid c hc).2 h).elim
    · rw [processDiomedesResponse_eq hinfo (fetch_of_find h)]
      exact ht'

/-! ## Accepting -/

theorem getElem?_snoc {α : Type} {l : List α} {a b : α} (h : (l ++ [a])[i]? = some b) :
    l[i]? = some b ∨ i = l.length ∧ b = a := by
  obtain hlt | hge := Nat.lt_or_ge i l.length
  · exact Or.inl (by rwa [List.getElem?_append_left hlt] at h)
  · rw [List.getElem?_append_right hge] at h
    obtain ⟨hlt, hb⟩ := List.getElem?_eq_some_iff.mp h
    have hi : i = l.length := by
      rw [List.length_singleton] at hlt
      omega
    subst hi
    exact Or.inr ⟨rfl, by simpa using hb.symm⟩

section Accept

variable (haddr : 0 < peer.addr) (hport : 0 < peer.port)
  (hnew : ∀ c ∈ t.conns, same ClientInfo.lt c.peer peer = false)

include haddr hport hnew

/-- A peer that is like none before has not been seen. -/
theorem Seen.unlike {k : ClientInfo} (hk : t.Seen k) : same ClientInfo.lt k peer = false := by
  obtain rfl | ⟨c, hc, rfl⟩ := hk
  · exact zero_lt haddr hport
  · exact hnew c hc

theorem Seen.ne {k : ClientInfo} (hk : t.Seen k) : peer ≠ k := by
  rintro rfl
  exact Bool.false_ne_true ((hk.unlike haddr hport hnew).symm.trans (same_self peer))

/-- It is a key of its own. -/
theorem Routed.separates_accept (ht : t.Routed) :
    Separates ClientInfo.lt fun k => t.Seen k ∨ k = peer := by
  rintro a b (ha | rfl) (hb | rfl)
  · exact ht.separates a b ha hb
  · exact iff_of_false (by simp [ha.unlike haddr hport hnew]) (ha.ne haddr hport hnew).symm
  · exact iff_of_false (by rw [same_comm, hb.unlike haddr hport hnew]; simp)
      (hb.ne haddr hport hnew)
  · exact iff_of_true (same_self _) rfl

/-- What the proxy has for the others does not change. -/
theorem Routed.find_accept {ν : Type} {m : List (ClientInfo × ν)} {v : ν} {k : ClientInfo}
    (ht : t.Routed) (hm : ∀ x ∈ m, t.Seen x.1) (hk : t.Seen k) :
    find ClientInfo.lt k (assign ClientInfo.lt peer v m) = find ClientInfo.lt k m :=
  find_assign_of_ne (ht.separates_accept haddr hport hnew) (fun x hx => Or.inl (hm x hx))
    (Or.inr rfl) (Or.inl hk) (hk.ne haddr hport hnew)

end Accept

/-- The addresses the proxy has seen then. -/
theorem seen_accept {k : ClientInfo} :
    (t.acceptNewClient fd peer).Seen k ↔ t.Seen k ∨ k = peer := by
  constructor
  · rintro (rfl | ⟨c, hc, rfl⟩)
    · exact Or.inl (Or.inl rfl)
    · obtain hc | hc := List.mem_append.mp hc
      · exact Or.inl (Or.inr ⟨c, hc, rfl⟩)
      · exact Or.inr (List.mem_singleton.mp hc ▸ rfl)
  · rintro ((rfl | ⟨c, hc, rfl⟩) | rfl)
    · exact Or.inl rfl
    · exact Or.inr ⟨c, List.mem_append_left _ hc, rfl⟩
    · exact Or.inr ⟨_, List.mem_append_right _ (List.mem_singleton.mpr rfl), rfl⟩

theorem acceptId_eq (ht : t.Routed) (hfew : t.conns.length < 2 ^ 16) :
    myId ||| t.nextClientId.toUInt32 = UInt32.ofNat t.conns.length := by
  have hnext := ht.next
  rw [Nat.mod_eq_of_lt hfew] at hnext
  rw [← hnext, myId, UInt32.zero_or]
  simp

/-- The new id leads to the new peer. -/
theorem Routed.infoOf_new (ht : t.Routed) (hfew : t.conns.length < 2 ^ 16) :
    find idLt (UInt32.ofNat t.conns.length) (t.acceptNewClient fd peer).infoOf = some peer := by
  change find idLt _ (assign idLt (myId ||| t.nextClientId.toUInt32) peer t.infoOf) = _
  rw [acceptId_eq ht hfew]
  exact find_assign_self ((separates_idLt _ _ trivial trivial).mpr rfl)

/-- Other ids lead where they led. -/
theorem Routed.infoOf_accept (ht : t.Routed) (hfew : t.conns.length < 2 ^ 16)
    (hid : id.toNat ≠ t.conns.length) :
    find idLt id (t.acceptNewClient fd peer).infoOf = find idLt id t.infoOf := by
  change find idLt _ (assign idLt (myId ||| t.nextClientId.toUInt32) peer t.infoOf) = _
  rw [acceptId_eq ht hfew]
  refine find_assign_of_ne separates_idLt (fun _ _ => trivial) trivial trivial fun h => hid ?_
  rw [← h, UInt32.toNat_ofNat', Nat.mod_eq_of_lt (by omega)]

/-- The new descriptor is nobody's but the new connection's. -/
theorem Routed.own_accept {j : ℕ} {d : Conn} (ht : t.Routed) (hfree : t.connOn fd = none)
    (haddr : 0 < peer.addr) (hport : 0 < peer.port)
    (hall : ∀ c ∈ t.conns, same ClientInfo.lt c.peer peer = false ∧
      find ClientInfo.lt c.peer t.clientOf ≠ some fd)
    (hc : (t.acceptNewClient fd peer).conns[i]? = some c)
    (hd : (t.acceptNewClient fd peer).conns[j]? = some d) (hopen : d.isOpen = true)
    (h : find ClientInfo.lt c.peer (t.acceptNewClient fd peer).clientOf = some d.fd) : j = i := by
  have hfind : ∀ c ∈ t.conns, find ClientInfo.lt c.peer (t.acceptNewClient fd peer).clientOf =
      find ClientInfo.lt c.peer t.clientOf := fun c hc =>
    ht.find_accept haddr hport (fun c hc => (hall c hc).1) ht.clientKeys (Or.inr ⟨c, hc, rfl⟩)
  have hself : find ClientInfo.lt peer (t.acceptNewClient fd peer).clientOf = some fd :=
    find_assign_self (same_self peer)
  obtain hc | ⟨rfl, rfl⟩ := getElem?_snoc hc
  · have hmem := List.mem_of_getElem? hc
    rw [hfind c hmem] at h
    obtain hd | ⟨rfl, rfl⟩ := getElem?_snoc hd
    · exact ht.own i j c d hc hd hopen h
    · exact ((hall c hmem).2 h).elim
  · obtain hd | ⟨rfl, rfl⟩ := getElem?_snoc hd
    · have hfd : fd = d.fd := Option.some.inj (hself.symm.trans h)
      have hnone := List.findIdx?_eq_none_iff.mp hfree d (List.mem_of_getElem? hd)
      simp [hopen, hfd] at hnone
    · rfl

theorem Routed.acceptNewClient (ht : t.Routed) (hfd : 0 < fd) (hfree : t.connOn fd = none)
    (haddr : 0 < peer.addr) (hport : 0 < peer.port) (hcare : t.Careful (.accept fd peer)) :
    (t.acceptNewClient fd peer).Routed := by
  obtain ⟨hfew, hall⟩ := hcare fd peer rfl
  have hnew : ∀ c ∈ t.conns, same ClientInfo.lt c.peer peer = false := fun c hc => (hall c hc).1
  have hne : ∀ k, t.Seen k → peer ≠ k := fun k hk => hk.ne haddr hport hnew
  have hpeer : ∀ (i : ℕ) (c : Conn), t.conns[i]? = some c → peer ≠ c.peer := fun i c hc =>
    hne _ (Or.inr ⟨c, List.mem_of_getElem? hc, rfl⟩)
  have hkeys {ν : Type} {m : List (ClientInfo × ν)} {v : ν} (hm : ∀ x ∈ m, t.Seen x.1) :
      ∀ x ∈ assign ClientInfo.lt peer v m, (t.acceptNewClient fd peer).Seen x.1 :=
    keys_assign (fun x hx => seen_accept.mpr (Or.inl (hm x hx))) (seen_accept.mpr (Or.inr rfl))
  have hlen : (t.acceptNewClient fd peer).conns.length = t.conns.length + 1 := by
    simp [Proxy.acceptNewClient]
  exact {
    few := by omega
    next := by
      rw [hlen]
      change (t.nextClientId + 1).toNat = _
      rw [UInt16.toNat_add, ht.next]
      simp
    separates := fun a b ha hb => ht.separates_accept haddr hport hnew a b (seen_accept.mp ha)
      (seen_accept.mp hb)
    distinct := by
      intro i j c d hc hd h
      obtain hc | ⟨rfl, rfl⟩ := getElem?_snoc hc
      · obtain hd | ⟨rfl, rfl⟩ := getElem?_snoc hd
        · exact ht.distinct i j c d hc hd h
        · exact (hpeer i c hc h.symm).elim
      · obtain hd | ⟨rfl, rfl⟩ := getElem?_snoc hd
        · exact (hpeer j d hd h).elim
        · rfl
    valid := by
      intro c hc
      obtain hc | hc := List.mem_append.mp hc
      · exact ht.valid c hc
      · obtain rfl := List.mem_singleton.mp hc
        exact ⟨hfd, hne _ (Or.inl rfl)⟩
    infoOf := by
      intro i c hc
      obtain hc | ⟨rfl, rfl⟩ := getElem?_snoc hc
      · rw [ht.infoOf_accept hfew (ht.toNat_ne hc), ht.infoOf i c hc]
      · exact ht.infoOf_new hfew
    noInfo := by
      intro id h
      rw [hlen] at h
      rw [ht.infoOf_accept hfew (by omega)]
      exact ht.noInfo id (by omega)
    idOf := by
      intro i c hc
      change find ClientInfo.lt _ (assign ClientInfo.lt peer (myId ||| t.nextClientId.toUInt32)
        t.idOf) = _
      rw [acceptId_eq ht hfew]
      obtain hc | ⟨rfl, rfl⟩ := getElem?_snoc hc
      · rw [ht.find_accept haddr hport hnew ht.idKeys (Or.inr ⟨c, List.mem_of_getElem? hc, rfl⟩)]
        exact ht.idOf i c hc
      · exact find_assign_self (same_self peer)
    idKeys := hkeys ht.idKeys
    clientOf := by
      intro c hc
      obtain hc | hc := List.mem_append.mp hc
      · have hold := ht.find_accept (v := fd) haddr hport hnew ht.clientKeys
          (Or.inr ⟨c, hc, rfl⟩)
        exact (ht.clientOf c hc).imp hold.trans hold.trans
      · obtain rfl := List.mem_singleton.mp hc
        exact Or.inl (find_assign_self (same_self peer))
    noClient := by
      have hold := ht.find_accept (v := fd) haddr hport hnew ht.clientKeys (Or.inl rfl)
      exact ht.noClient.imp hold.trans hold.trans
    clientKeys := hkeys ht.clientKeys
    own := fun i j c d hc hd hopen h => ht.own_accept hfree haddr hport hall hc hd hopen h
    owned := ht.owned }

theorem step_accept (h : step t (.accept fd peer) = some t') :
    t' = t.acceptNewClient fd peer ∧
      0 < fd ∧ t.connOn fd = none ∧ 0 < peer.addr ∧ 0 < peer.port := by
  simp only [step] at h
  split at h
  · next hguard => exact ⟨(Option.some.inj h).symm, hguard⟩
  · cases h

theorem routed_step (ht : t.Routed) (hcare : t.Careful e) (h : step t e = some t') :
    t'.Routed := by
  cases e with
  | accept fd peer =>
    obtain ⟨rfl, hfd, hfree, haddr, hport⟩ := step_accept h
    exact ht.acceptNewClient hfd hfree haddr hport hcare
  | readable fd named received =>
    obtain ⟨i, -, h⟩ := Option.bind_eq_some_iff.mp h
    obtain ⟨c, hc, rfl⟩ := Option.map_eq_some_iff.mp h
    exact ht.processClientRequest hc named received
  | response id sent => exact Option.some.inj h ▸ ht.processDiomedesResponse id sent

theorem Routed.safe (ht : t.Routed) : t.Safe := by
  refine ⟨ht.owned, fun e t' h => ?_⟩
  cases e with
  | accept fd peer =>
    obtain ⟨rfl, -⟩ := step_accept h
    exact ht.owned
  | readable fd named received =>
    exact (routed_step ht (fun _ _ h => by cases h) h).owned
  | response id sent => exact (routed_step ht (fun _ _ h => by cases h) h).owned

/-! ## The harm that is done otherwise -/

/-- A response that would go to the newest connection, under an id that is not its own. -/
theorem not_safe_of_misrouted (hfd : 0 < fd) (hfree : t.connOn fd = none)
    (hinfo : find idLt id (t.acceptNewClient fd peer).infoOf = some info)
    (hclient : find ClientInfo.lt info (t.acceptNewClient fd peer).clientOf = some fd)
    (hid : id.toNat ≠ t.conns.length) : ¬(t.acceptNewClient fd peer).Safe := by
  intro hsafe
  have hon : (t.acceptNewClient fd peer).connOn fd = some t.conns.length := by
    have hnone : t.conns.findIdx? (fun c => c.isOpen && c.fd = fd) = none := hfree
    simp [connOn, Proxy.acceptNewClient, List.findIdx?_append, hnone]
  have hstep := hsafe.2 (.response id true) _ rfl
  rw [processDiomedesResponse_eq (fetch_of_find hinfo) (fetch_of_find hclient), deliver,
    if_neg (Int.not_le.mpr hfd)] at hstep
  have hon' : connOn fd { t.acceptNewClient fd peer with
    infoOf := (t.acceptNewClient fd peer).infoOf
    clientOf := (t.acceptNewClient fd peer).clientOf } = some t.conns.length := hon
  rw [hon'] at hstep
  exact hid (hstep _ List.mem_cons_self)

/-- **Careless accepts do harm**: an id that comes around, an address that is like another, or a
descriptor that stands for somebody else. -/
theorem Routed.careful_of_safe (ht : t.Routed) (h : step t e = some t') (hsafe : t'.Safe) :
    t.Careful e := by
  rintro fd peer rfl
  obtain ⟨rfl, hfd, hfree, haddr, hport⟩ := step_accept h
  have hfew : t.conns.length < 2 ^ 16 := by
    by_contra hmany
    have hlen : t.conns.length = 2 ^ 16 := Nat.le_antisymm ht.few (Nat.not_lt.mp hmany)
    have hnext : t.nextClientId = 0 := by
      apply UInt16.toNat_inj.mp
      rw [ht.next, hlen]
      rfl
    have hinfo : find idLt 0 (t.acceptNewClient fd peer).infoOf = some peer := by
      change find idLt 0 (assign idLt (myId ||| t.nextClientId.toUInt32) peer t.infoOf) = _
      rw [hnext]
      exact find_assign_self ((separates_idLt _ _ trivial trivial).mpr rfl)
    have hclient : find ClientInfo.lt peer (t.acceptNewClient fd peer).clientOf = some fd :=
      find_assign_self (same_self peer)
    have hid : (0 : UInt32).toNat ≠ t.conns.length := by
      rw [hlen]
      decide
    exact not_safe_of_misrouted hfd hfree hinfo hclient hid hsafe
  have hinfo : ∀ i c, t.conns[i]? = some c →
      find idLt (UInt32.ofNat i) (t.acceptNewClient fd peer).infoOf = some c.peer :=
    fun i c hc => (ht.infoOf_accept hfew (ht.toNat_ne hc)).trans (ht.infoOf i c hc)
  have hunlike : ∀ c ∈ t.conns, same ClientInfo.lt c.peer peer = false := by
    intro c hc
    by_contra hlike
    obtain ⟨x, hx, hlike', hfind⟩ := exists_taken (v := fd) ht.separates ht.clientKeys
      (Or.inr ⟨c, hc, rfl⟩) (by obtain h | h := ht.clientOf c hc <;> rw [h] <;> simp)
      (Bool.not_eq_false _ ▸ hlike)
    obtain hzero | ⟨d, hd, hdx⟩ := ht.clientKeys x hx
    · rw [hzero, zero_lt haddr hport] at hlike'
      cases hlike'
    · obtain ⟨j, hj⟩ := List.mem_iff_getElem?.mp hd
      rw [← hdx] at hfind
      exact not_safe_of_misrouted hfd hfree (hinfo j d hj) hfind (ht.toNat_ne hj) hsafe
  refine ⟨hfew, fun c hc => ⟨hunlike c hc, fun hstale => ?_⟩⟩
  obtain ⟨i, hi⟩ := List.mem_iff_getElem?.mp hc
  have hclient : find ClientInfo.lt c.peer (t.acceptNewClient fd peer).clientOf = some fd :=
    (ht.find_accept haddr hport hunlike ht.clientKeys (Or.inr ⟨c, hc, rfl⟩)).trans hstale
  exact not_safe_of_misrouted hfd hfree (hinfo i c hi) hclient (ht.toNat_ne hi) hsafe

/-- **The proxy routes right** all along a run, whatever may come next, exactly if it accepts at
most 2¹⁶ clients, each with an address that is not like an earlier one and on a descriptor that it
does not have for another. -/
theorem safe_iff (es : List Event) :
    Run.Always step Safe init es ↔ Run.Along step (fun t e _ => t.Careful e) init es :=
  Run.always_iff_of_inv (fun _ ht => ht.safe) (fun _ _ _ h ht hC => routed_step ht hC h)
    (fun _ _ _ h ht hsafe => ht.careful_of_safe h hsafe) routed_init

/-- Two clients on one machine: the second gets the response to the first. -/
example : (([.accept 5 ⟨1, 10⟩, .accept 6 ⟨1, 20⟩, .response 0 true] : List Event).foldlM step
    init).map Proxy.log = some [.response 1 0] := by decide

end Proxy

end Falcon.Diomedes
