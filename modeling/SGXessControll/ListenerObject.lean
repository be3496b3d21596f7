import SGXessControll.Sockets

/-!
# The TCP listener of the Controller

One `Listener` object, however its members are called: it can listen again and again, on another
port each time, and what it opens it closes. A descriptor 0 in `m_sock` stands for none, which is
right as long as standard input is open.
-/

namespace SGXess.Sockets.Controller.Listener

set_option autoImplicit false

open Calls (Code Setting Handles Machine Config solo)

/-- What `m_sock` is afterwards. -/
def deleteConn (m_sock : Int) : Sock Int := do
  if 0 ≠ m_sock then
    void (.close m_sock)
    return 0
  return m_sock

def listenTCP (m_sock : Int) (port : Nat) : Sock (Bool × Int) := do
  let _ ← deleteConn m_sock
  let m_sock ← int .socket
  if 0 > m_sock then
    return (false, m_sock)
  -- `ret` is 1 where it is tested, with no option set.
  let ret ← int (.bind m_sock port)
  if 0 > ret then
    return (false, m_sock)
  let ret ← int (.listen m_sock 5)
  if 0 > ret then
    return (false, m_sock)
  return (true, m_sock)

def getClientConn (m_sock : Int) : Sock Int := do
  let clientSock ← int (.accept m_sock)
  if 0 > clientSock then
    return -1
  return clientSock

def deleteClientConn (clientSock : Int) : Sock Unit := void (.close clientSock)

/-- The members that open or close a descriptor; `deleteClientConn` for any of the clients there
are. `listenTCP` is private, and no other member calls it. -/
inductive Use where
  | listenTCP (port : Nat)
  | deleteConn
  | getClientConn
  | deleteClientConn (i : Nat)

/-- `m_sock`, and the clients that were handed out and not given back. -/
def use (m_sock : Int) (clients : List Int) : Use → Sock (Int × List Int)
  | .listenTCP port => do
    let (_, m_sock) ← listenTCP m_sock port
    return (m_sock, clients)
  | .deleteConn => do
    let m_sock ← deleteConn m_sock
    return (m_sock, clients)
  | .getClientConn => do
    let clientSock ← getClientConn m_sock
    if -1 = clientSock then
      return (m_sock, clients)
    return (m_sock, clientSock :: clients)
  | .deleteClientConn i =>
    match clients[i]? with
    | none => return (m_sock, clients)
    | some clientSock => do
      deleteClientConn clientSock
      return (m_sock, clients.erase clientSock)

def useAll (m_sock : Int) (clients : List Int) : List Use → Sock (Int × List Int)
  | [] => return (m_sock, clients)
  | u :: us => do
    let (m_sock, clients) ← use m_sock clients u
    useAll m_sock clients us

/-- From the constructor to the destructor. -/
def life (us : List Use) : Sock (List Int) := do
  let (m_sock, clients) ← useAll 0 [] us
  let _ ← deleteConn m_sock
  return clients

/-- A call is about an open descriptor, or what a failed `::socket` returned, and the standard
streams stay open. -/
structure Proper (c : SocketCall) (live : Finset Int) : Prop where
  named : Named c live
  spares : ∀ fd, c = .close fd → fd ∉ standard

/-- Besides the standard streams what is open is the listening socket, if there is one, and the
clients. -/
structure Owns (m_sock : Int) (clients : List Int) (live : Finset Int) : Prop where
  nodup : clients.Nodup
  apart : ∀ fd ∈ clients, 0 ≤ fd ∧ fd ∉ standard ∧ fd ≠ m_sock
  own : 0 < m_sock → m_sock ∉ standard
  open_iff : ∀ fd, fd ∈ live ↔ fd ∈ standard ∨ fd ∈ clients ∨ fd = m_sock ∧ 0 < m_sock

section Triples

variable {m_sock : Int} {clients : List Int} {live : Finset Int} {c : SocketCall}

abbrev object : Setting (Finset Int) SocketCall Reply := handles.contract Proper

theorem Owns.holds (h : Owns m_sock clients live) (hpos : 0 ≤ m_sock) : m_sock ∈ live := by
  rw [h.open_iff]
  rcases hpos.lt_or_eq with hlt | rfl
  · exact .inr (.inr ⟨rfl, hlt⟩)
  · exact .inl (by decide)

theorem Owns.proper (h : Owns m_sock clients live) (hc : named c = some m_sock)
    (hclose : ∀ fd, c ≠ .close fd) : Proper c live := by
  refine ⟨fun fd hfd => ?_, fun fd hfd => absurd hfd (hclose fd)⟩
  rw [hc] at hfd
  cases hfd
  by_cases hpos : 0 ≤ m_sock
  · exact .inl (h.holds hpos)
  · exact .inr (not_le.mp hpos)

/-- A call on the listening socket that opens and closes nothing. -/
theorem triple_on_sock (ho : ∀ r, handles.opened c r = none) (hc : handles.closes c = false)
    (hnamed : named c = some m_sock) :
    object.Triple (Owns m_sock clients) (int c) (fun _ => Owns m_sock clients) := by
  intro live howns
  have hclose : ∀ fd, c ≠ .close fd := by
    rintro fd rfl
    cases hc
  have hproper := howns.proper hnamed hclose
  refine Setting.triple_bind (Handles.triple_ask (B := fun _ => (· = live)) hproper
    fun r live' hr => Handles.respond_kept (ho r) hc hr) (fun _ => ?_) live rfl
  exact Setting.triple_ret (Handles.stable _) fun live' hlive => hlive ▸ howns

theorem neg_not_standard {fd : Int} (hneg : fd < 0) : fd ∉ standard := by
  simp only [standard, Finset.mem_insert, Finset.mem_singleton]
  omega

theorem ne_zero_of_not_standard {fd : Int} (h : fd ∉ standard) : fd ≠ 0 := by
  rintro rfl
  exact h (by decide)

theorem proper_close {fd : Int} (hopen : fd ∈ live ∨ fd < 0) (hspares : fd ∉ standard) :
    Proper (.close fd) live := by
  refine ⟨fun fd' h => ?_, fun fd' h => ?_⟩
  · cases h
    exact hopen
  · cases h
    exact hspares

/-- Which number stands for no listening socket makes no difference. -/
theorem Owns.without {m_sock' : Int} (h : Owns m_sock clients live) (hle : m_sock ≤ 0)
    (hle' : m_sock' ≤ 0) : Owns m_sock' clients live := by
  refine ⟨h.nodup, fun fd hfd => ?_, fun hlt => absurd hlt (not_lt.mpr hle'), fun fd => ?_⟩
  · obtain ⟨hpos, hstandard, _⟩ := h.apart fd hfd
    have hne := ne_zero_of_not_standard hstandard
    exact ⟨hpos, hstandard, by omega⟩
  · rw [h.open_iff]
    simp only [not_lt.mpr hle, not_lt.mpr hle', and_false]

theorem Owns.closed (h : Owns m_sock clients live) (hpos : 0 < m_sock) :
    Owns 0 clients (live.erase m_sock) := by
  refine ⟨h.nodup, fun fd hfd => ?_, fun hlt => absurd hlt (lt_irrefl 0), fun fd => ?_⟩
  · obtain ⟨hle, hstandard, _⟩ := h.apart fd hfd
    exact ⟨hle, hstandard, ne_zero_of_not_standard hstandard⟩
  · rw [Finset.mem_erase, h.open_iff]
    constructor
    · rintro ⟨hne, hstandard | hclient | ⟨heq, _⟩⟩
      · exact .inl hstandard
      · exact .inr (.inl hclient)
      · exact absurd heq hne
    · rintro (hstandard | hclient | ⟨_, hlt⟩)
      · exact ⟨fun heq => h.own hpos (heq ▸ hstandard), .inl hstandard⟩
      · exact ⟨(h.apart fd hclient).2.2, .inr (.inl hclient)⟩
      · exact absurd hlt (lt_irrefl 0)

/-- A new descriptor is none of those that are open. -/
theorem Owns.opened {fd : Int} (h : Owns 0 clients live) (hnew : fd ∉ live) (hle : 0 ≤ fd) :
    Owns fd clients (insert fd live) := by
  rw [h.open_iff, not_or, not_or] at hnew
  obtain ⟨hstandard, hclients, _⟩ := hnew
  have hpos : 0 < fd := lt_of_le_of_ne hle (ne_zero_of_not_standard hstandard).symm
  refine ⟨h.nodup, fun fd' hfd' => ?_, fun _ => hstandard, fun fd' => ?_⟩
  · obtain ⟨hle', hstandard', _⟩ := h.apart fd' hfd'
    exact ⟨hle', hstandard', fun heq => hclients (heq ▸ hfd')⟩
  · rw [Finset.mem_insert, h.open_iff]
    constructor
    · rintro (heq | hstandard | hclient | ⟨_, hlt⟩)
      · exact .inr (.inr ⟨heq, hpos⟩)
      · exact .inl hstandard
      · exact .inr (.inl hclient)
      · exact absurd hlt (lt_irrefl 0)
    · rintro (hstandard | hclient | ⟨heq, _⟩)
      · exact .inr (.inl hstandard)
      · exact .inr (.inr (.inl hclient))
      · exact .inl heq

theorem Owns.accepted {fd : Int} (h : Owns m_sock clients live) (hnew : fd ∉ live) (hle : 0 ≤ fd) :
    Owns m_sock (fd :: clients) (insert fd live) := by
  rw [h.open_iff, not_or, not_or, not_and] at hnew
  obtain ⟨hstandard, hclients, hsock⟩ := hnew
  have hne := ne_zero_of_not_standard hstandard
  refine ⟨List.nodup_cons.mpr ⟨hclients, h.nodup⟩, ?_, h.own, fun fd' => ?_⟩
  · intro fd' hfd'
    rcases List.mem_cons.mp hfd' with rfl | hfd'
    · exact ⟨hle, hstandard, fun heq => hsock heq (by omega)⟩
    · exact h.apart fd' hfd'
  · rw [Finset.mem_insert, h.open_iff, List.mem_cons]
    tauto

theorem Owns.givenBack {fd : Int} (h : Owns m_sock clients live) (hfd : fd ∈ clients) :
    Owns m_sock (clients.erase fd) (live.erase fd) := by
  obtain ⟨_, hstandard, hsock⟩ := h.apart fd hfd
  refine ⟨h.nodup.erase fd, fun fd' hfd' => h.apart fd' (List.mem_of_mem_erase hfd'), h.own, ?_⟩
  intro fd'
  rw [Finset.mem_erase, h.open_iff, h.nodup.mem_erase_iff]
  constructor
  · rintro ⟨hne, hs | hclient | hm⟩
    · exact .inl hs
    · exact .inr (.inl ⟨hne, hclient⟩)
    · exact .inr (.inr hm)
  · rintro (hs | ⟨hne, hclient⟩ | hm)
    · exact ⟨fun heq => hstandard (heq ▸ hs), .inl hs⟩
    · exact ⟨hne, .inr (.inl hclient)⟩
    · exact ⟨fun heq => hsock (heq ▸ hm.1), .inr (.inr hm)⟩

theorem triple_deleteConn : object.Triple (Owns m_sock clients) (deleteConn m_sock)
    (fun m_sock' live => m_sock' = 0 ∧ Owns 0 clients live) := by
  by_cases hzero : 0 = m_sock
  · rw [deleteConn, if_neg (not_not.mpr hzero)]
    exact Setting.triple_ret (Handles.stable _) fun live howns => ⟨hzero.symm, hzero ▸ howns⟩
  · rw [deleteConn, if_pos hzero]
    intro live howns
    have hproper : Proper (.close m_sock) live := by
      rcases lt_or_gt_of_ne hzero with hpos | hneg
      · exact proper_close (.inl (howns.holds hpos.le)) (howns.own hpos)
      · exact proper_close (.inr hneg) (neg_not_standard hneg)
    have hback : object.Triple (· = live) (void (.close m_sock)) (fun _ => Owns 0 clients) := by
      refine Setting.triple_bind (Handles.triple_ask (B := fun _ => Owns 0 clients) hproper
        fun r live' hr => ?_) fun _ => Setting.triple_ret (Handles.stable _) fun _ h => h
      rcases lt_or_gt_of_ne hzero with hpos | hneg
      · have hneeds : handles.needs (.close m_sock) = some m_sock := by
          simp [handles, named, hpos.le]
        rw [Handles.respond_closed (r := r) rfl hneeds rfl hr]
        exact howns.closed hpos
      · have hneeds : handles.needs (.close m_sock) = none := by
          simp [handles, named, hneg]
        rw [Handles.respond_idle (r := r) rfl hneeds hr]
        exact howns.without hneg.le le_rfl
    exact Setting.triple_bind hback (fun _ => Setting.triple_ret (Handles.stable _)
      fun _ h => ⟨rfl, h⟩) live rfl

theorem triple_socket : object.Triple (Owns 0 clients) (int .socket)
    (fun m_sock => Owns m_sock clients) := by
  intro live howns
  refine Setting.triple_bind (Handles.triple_ask (B := fun r => Owns r.ret clients) ⟨nofun, nofun⟩
    fun r live' hr => ?_) (fun _ => Setting.triple_ret (Handles.stable _) fun _ h => h) live rfl
  by_cases hneg : 0 > r.ret
  · rw [Handles.respond_kept (if_pos hneg) rfl hr]
    exact howns.without le_rfl hneg.le
  · obtain ⟨hnew, rfl⟩ := Handles.respond_opened (if_neg hneg) hr
    exact howns.opened hnew (not_lt.mp hneg)

theorem triple_listenTCP (port : Nat) : object.Triple (Owns m_sock clients)
    (listenTCP m_sock port) (fun r => Owns r.2 clients) := by
  refine Setting.triple_bind triple_deleteConn fun _ => ?_
  refine Setting.Triple.pre (A := Owns 0 clients) ?_ fun _ h => h.2
  have hstop : ∀ b m_sock, object.Triple (Owns m_sock clients) (Code.ret (b, m_sock))
      (fun r : Bool × Int => Owns r.2 clients) :=
    fun b m_sock => Setting.triple_ret (Handles.stable _) fun _ h => h
  refine Setting.triple_bind triple_socket fun m_sock => ?_
  by_cases hsock : 0 > m_sock
  · rw [if_pos hsock]
    exact hstop false m_sock
  · rw [if_neg hsock]
    refine Setting.triple_bind (triple_on_sock (c := .bind m_sock port) (fun _ => rfl) rfl rfl)
      fun ret => ?_
    by_cases hret : 0 > ret
    · rw [if_pos hret]
      exact hstop false m_sock
    · rw [if_neg hret]
      refine Setting.triple_bind (triple_on_sock (c := .listen m_sock 5) (fun _ => rfl) rfl rfl)
        fun ret => ?_
      by_cases hret : 0 > ret
      · rw [if_pos hret]
        exact hstop false m_sock
      · rw [if_neg hret]
        exact hstop true m_sock

theorem triple_getClientConn : object.Triple (Owns m_sock clients) (getClientConn m_sock)
    (fun clientSock =>
      Owns m_sock (if -1 = clientSock then clients else clientSock :: clients)) := by
  intro live howns
  have hproper : Proper (.accept m_sock) live := howns.proper rfl fun _ h => by cases h
  refine Setting.triple_bind (Handles.triple_ask (B := fun r : Reply =>
    Owns m_sock (if 0 > r.ret then clients else r.ret :: clients)) hproper
    fun r live' hr => ?_) (fun r => ?_) live rfl
  · by_cases hneg : 0 > r.ret
    · rw [if_pos hneg, Handles.respond_kept (if_pos hneg) rfl hr]
      exact howns
    · rw [if_neg hneg]
      obtain ⟨hnew, rfl⟩ := Handles.respond_opened (if_neg hneg) hr
      exact howns.accepted hnew (not_lt.mp hneg)
  · by_cases hneg : 0 > r.ret
    · simp only [if_pos hneg]
      exact Setting.triple_ret (Handles.stable _) fun _ h => by simpa using h
    · simp only [if_neg hneg]
      refine Setting.triple_ret (Handles.stable _) fun _ h => ?_
      rwa [if_neg (by omega)]

theorem triple_deleteClientConn {clientSock : Int} (hclient : clientSock ∈ clients) :
    object.Triple (Owns m_sock clients) (deleteClientConn clientSock)
      (fun _ => Owns m_sock (clients.erase clientSock)) := by
  intro live howns
  obtain ⟨hpos, hstandard, _⟩ := howns.apart clientSock hclient
  have hopen : clientSock ∈ live := (howns.open_iff clientSock).mpr (.inr (.inl hclient))
  have hclose : object.Triple (· = live) (Code.ask (.close clientSock))
      (fun _ => Owns m_sock (clients.erase clientSock)) := by
    refine Handles.triple_ask (proper_close (.inl hopen) hstandard) fun r live' hr => ?_
    have hneeds : handles.needs (.close clientSock) = some clientSock := by
      simp [handles, named, hpos]
    rw [Handles.respond_closed (r := r) rfl hneeds rfl hr]
    exact howns.givenBack hclient
  have hret : ∀ r : Reply, object.Triple (Owns m_sock (clients.erase clientSock)) (Code.ret ())
      fun _ => Owns m_sock (clients.erase clientSock) :=
    fun _ => Setting.triple_ret (Handles.stable _) fun _ h => h
  exact Setting.triple_bind hclose hret live rfl

/-- Each member keeps the books. -/
theorem triple_use (u : Use) : object.Triple (Owns m_sock clients) (use m_sock clients u)
    (fun s => Owns s.1 s.2) := by
  cases u with
  | listenTCP port =>
    exact Setting.triple_bind (triple_listenTCP port) fun _ =>
      Setting.triple_ret (Handles.stable _) fun _ h => h
  | deleteConn =>
    refine Setting.triple_bind triple_deleteConn fun m_sock' => ?_
    exact Setting.triple_ret (Handles.stable _) fun _ h => h.1 ▸ h.2
  | getClientConn =>
    refine Setting.triple_bind triple_getClientConn fun clientSock => ?_
    by_cases hnone : -1 = clientSock
    · simp only [if_pos hnone]
      exact Setting.triple_ret (Handles.stable _) fun _ h => h
    · simp only [if_neg hnone]
      exact Setting.triple_ret (Handles.stable _) fun _ h => h
  | deleteClientConn i =>
    have hret : ∀ rest, object.Triple (Owns m_sock rest) (Code.ret (m_sock, rest))
        (fun s : Int × List Int => Owns s.1 s.2) :=
      fun _ => Setting.triple_ret (Handles.stable _) fun _ h => h
    cases hclient : clients[i]? with
    | none =>
      simp only [use, hclient]
      exact hret clients
    | some clientSock =>
      simp only [use, hclient]
      have hmem := List.mem_of_getElem? hclient
      exact Setting.triple_bind (triple_deleteClientConn hmem) fun _ => hret _

theorem triple_useAll (us : List Use) : object.Triple (Owns m_sock clients)
    (useAll m_sock clients us) (fun s => Owns s.1 s.2) := by
  induction us generalizing m_sock clients with
  | nil => exact Setting.triple_ret (Handles.stable _) fun _ h => h
  | cons u us ih => exact Setting.triple_bind (triple_use u) fun _ => ih

theorem triple_life (us : List Use) : object.Triple (· = standard) (life us)
    (fun clients live => ∀ fd, fd ∈ live ↔ fd ∈ standard ∨ fd ∈ clients) := by
  refine Setting.Triple.pre (A := Owns 0 []) ?_ ?_
  · refine Setting.triple_bind (triple_useAll us) fun s => ?_
    refine Setting.triple_bind triple_deleteConn fun _ => ?_
    refine Setting.triple_ret (Handles.stable _) fun live h fd => ?_
    rw [h.2.open_iff]
    simp
  · rintro live rfl
    exact ⟨List.nodup_nil, nofun, nofun, fun fd => by simp⟩

end Triples

/-- However a listener is used, and whatever fails, it works on open descriptors only, leaves the
standard streams alone, and behind its destructor only the clients are open that its user kept. -/
theorem listener_owns_socket (us : List Use)
    {t : Config (Finset Int) Unit SocketCall Reply (List Int)}
    (ht : handles.machine.Reaches Machine.any (solo (life us) standard) t) :
    (∀ c, (t.code ()).pending = .calling c → Proper c t.world) ∧
      ∀ clients, (t.code ()).pending = .returned clients →
        ∀ fd, fd ∈ t.world ↔ fd ∈ standard ∨ fd ∈ clients := by
  have hholds := ht.alone (triple_life us) rfl
  exact ⟨fun c hc => hholds.pre hc, fun clients hclients => hholds.returned hclients⟩

/-- The port is taken, another one is not, and of two clients the first is given back. -/
theorem listener_owns_socket_again : ∃ t, handles.machine.Reaches Machine.any
    (solo (life [.listenTCP 1, .listenTCP 2, .getClientConn, .getClientConn, .deleteClientConn 1])
      standard) t ∧ ∀ fd, fd ∈ t.world ↔ fd ∈ standard ∨ fd ∈ [5] := by
  have hrun : handles.machine.observe (fun live => decide (5 ∈ live))
      (solo (life [.listenTCP 1, .listenTCP 2, .getClientConn, .getClientConn,
        .deleteClientConn 1]) standard)
      [.reply () ⟨3, []⟩, .reply () ⟨-1, []⟩, .reply () ⟨0, []⟩, .reply () ⟨3, []⟩,
        .reply () ⟨0, []⟩, .reply () ⟨0, []⟩, .reply () ⟨4, []⟩, .reply () ⟨5, []⟩,
        .reply () ⟨0, []⟩, .reply () ⟨0, []⟩] () = some (.returned [5], true) := by
    decide +kernel
  obtain ⟨t, ht, hp, _⟩ := Machine.reaches_of_observe hrun
  exact ⟨t, ht, (listener_owns_socket _ ht).2 _ hp⟩

end SGXess.Sockets.Controller.Listener
