import SGXessControll.Attestator
import SGXessControll.Transport
import Mathlib.Data.Nat.Find

/-!
# How an attestation exchange ends

`Attestator::getClientMsg` under given results of `mbedtls_ssl_read` and `mbedtls_ssl_write`,
with any results of the other calls. The read loop asks again after a retry code; the write
loop does not.
-/

namespace SGXess.Controller.Attestation

set_option autoImplicit false

open Calls Attestator

/-- The results of the reads and of the writes, in order. Either operation, when retried, some
time returns something else than a retry code. -/
structure Script (response : Str) where
  reads : Nat → Reply
  writes : Nat → Reply
  reads_possible : ∀ k, Possible (.sslRead .server 1023) (reads k)
  writes_possible : ∀ k, Possible (.sslWrite .server response) (writes k)
  reads_end : ∀ n, ∃ k, n ≤ k ∧ wantsRetry (reads k) = false
  writes_end : ∀ n, ∃ k, n ≤ k ∧ wantsRetry (writes k) = false

/-- The calls made, and what was taken of the response. -/
structure Session where
  reads : Nat := 0
  writes : Nat := 0
  calls : Nat := 0
  written : Str := []
  deriving DecidableEq

namespace Session

def called (w : Session) : Session := { w with calls := w.calls + 1 }

def read (w : Session) : Session := { w with calls := w.calls + 1, reads := w.reads + 1 }

def wrote (w : Session) (bytes : Str) : Session :=
  { w with calls := w.calls + 1, writes := w.writes + 1, written := w.written ++ bytes }

end Session

namespace Script

variable {response : Str} (script : Script response)

def respond (w : Session) (_ : Unit) (c : Call) (r : Reply) : Option Session :=
  match c with
  | .sslRead _ _ => if r = script.reads w.reads then some w.read else none
  | .sslWrite _ _ => if r = script.writes w.writes then some (w.wrote r.bytes) else none
  | c => if Possible c r then some w.called else none

def machine : Machine Session Unit Call Reply Empty := ⟨script.respond, fun _ e => nomatch e⟩

/-- The read that ends the read loop. -/
def lastRead : Nat :=
  Nat.find (p := fun k => wantsRetry (script.reads k) = false)
    ((script.reads_end 0).imp fun _ h => h.2)

theorem wantsRetry_lastRead : wantsRetry (script.reads script.lastRead) = false :=
  Nat.find_spec (p := fun k => wantsRetry (script.reads k) = false) _

variable {script} {c : Call} {r : Reply} {w w' : Session}

theorem respond_read {side : Side} {len : Nat}
    (h : script.machine.respond w () (.sslRead side len) r = some w') :
    r = script.reads w.reads ∧ w' = w.read := by
  obtain ⟨hr, hw⟩ := Option.ite_none_right_eq_some.mp h
  exact ⟨hr, (Option.some.inj hw).symm⟩

theorem respond_write {side : Side} {buf : Str}
    (h : script.machine.respond w () (.sslWrite side buf) r = some w') :
    r = script.writes w.writes ∧ w' = w.wrote r.bytes := by
  obtain ⟨hr, hw⟩ := Option.ite_none_right_eq_some.mp h
  exact ⟨hr, (Option.some.inj hw).symm⟩

/-- The calls whose results are not given. -/
def Free (c : Call) : Prop := c = .netFree ∨ c = .sslSessionReset ∨ c = .netAccept ∨
  c = .sslHandshake .server ∨ c = .sslCloseNotify .server

theorem respond_free (hc : Free c) (r : Reply) :
    script.machine.respond w () c r = some w.called := by
  rcases hc with rfl | rfl | rfl | rfl | rfl <;> simp [machine, Script.respond, Possible]

theorem wantsRetry_of_lt {k : Nat} (h : k < script.lastRead) :
    wantsRetry (script.reads k) = true := by
  have hmin := Nat.find_min (p := fun k => wantsRetry (script.reads k) = false) _ h
  exact Bool.not_eq_false _ ▸ hmin

end Script

section Outcomes

variable (ciphersuite msg : Str) (script : Script (HTTP_RESPONSE ciphersuite))

def Reached (t : Config Session Unit Call Reply (Bool × Str)) : Prop :=
  script.machine.Reaches Machine.any (solo (getClientMsg ciphersuite msg) {}) t

/-- The number of calls is bounded, and no loop goes on without a call. -/
def Ends : Prop :=
  (∃ bound, ∀ t, Reached ciphersuite msg script t → t.world.calls ≤ bound) ∧
    ∀ t, Reached ciphersuite msg script t → (t.code ()).pending ≠ .undefined

/-- It returns `true` only if what was written is as `P` says. -/
def TrueOnlyIf (P : Str → Prop) : Prop :=
  ∀ t out, Reached ciphersuite msg script t → (t.code ()).pending = .returned (true, out) →
    P t.world.written

end Outcomes

section Contract

variable {response : Str} (script : Script response)

/-- No call beyond the last one that can be made, and the endless loop only behind a retry
code. -/
abbrev owed : Setting Session Call Reply :=
  script.machine.alone Machine.any (fun _ w => w.calls ≤ script.lastRead + 9)
    fun w => w.calls ≤ script.lastRead + 9 ∧ wantsRetry (script.writes 0) = true

variable {script}

theorem stable (A : Session → Prop) : (owed script).Stable A :=
  Machine.stable_alone fun _ e => nomatch e

section Free

variable {P : Session → Prop} {c : Call} {n : Nat}

/-- A call whose result is not given does not change what `P` looks at. -/
theorem triple_free (hP : ∀ w, P w → P w.called) (hc : Script.Free c)
    (hn : n ≤ script.lastRead + 8) :
    (owed script).Triple (fun w => P w ∧ w.calls ≤ n) (Code.ask c)
      (fun _ w => P w ∧ w.calls ≤ n + 1) := by
  refine Setting.triple_ask (stable _) (fun _ => stable _)
    (fun w hw => Nat.le_succ_of_le (Nat.le_trans hw.2 hn)) ?_
  intro w r w' hw ha
  have hrespond := ha.1
  rw [Script.respond_free hc] at hrespond
  cases hrespond
  exact ⟨hP w hw.1, Nat.succ_le_succ hw.2⟩

theorem triple_free_int (hP : ∀ w, P w → P w.called) (hc : Script.Free c)
    (hn : n ≤ script.lastRead + 8) :
    (owed script).Triple (fun w => P w ∧ w.calls ≤ n) (int c)
      (fun _ w => P w ∧ w.calls ≤ n + 1) :=
  Setting.triple_bind (triple_free hP hc hn) fun _ => Setting.triple_ret (stable _) fun _ h => h

theorem triple_free_void (hP : ∀ w, P w → P w.called) (hc : Script.Free c)
    (hn : n ≤ script.lastRead + 8) :
    (owed script).Triple (fun w => P w ∧ w.calls ≤ n) (void c)
      (fun _ w => P w ∧ w.calls ≤ n + 1) :=
  Setting.triple_bind (triple_free hP hc hn) fun _ => Setting.triple_ret (stable _) fun _ h => h

end Free

/-- Nothing is read or written yet. -/
def Fresh (w : Session) : Prop := w.reads = 0 ∧ w.writes = 0 ∧ w.written = []

theorem triple_acceptClient :
    (owed script).Triple (fun w => Fresh w ∧ w.calls ≤ 0) acceptClient
      (fun _ w => Fresh w ∧ w.calls ≤ 4) := by
  have hfresh : ∀ w, Fresh w → Fresh w.called := fun _ h => h
  refine Setting.triple_bind (triple_free_void hfresh (.inl rfl) (Nat.zero_le _)) fun _ => ?_
  refine Setting.triple_bind (triple_free_void hfresh (.inr (.inl rfl)) (by omega)) fun _ => ?_
  refine Setting.triple_bind (triple_free_int hfresh (.inr (.inr (.inl rfl))) (by omega))
    fun ret => ?_
  split
  · exact Setting.triple_ret (stable _) fun w hw => ⟨hw.1, Nat.le_succ_of_le hw.2⟩
  · refine Setting.triple_bind (triple_free_int hfresh (.inr (.inr (.inr (.inl rfl)))) (by omega))
      fun ret => ?_
    split <;> exact Setting.triple_ret (stable _) fun _ h => h

/-- In the read loop: every read so far asked for another. -/
def Reading (script : Script response) (w : Session) : Prop :=
  w.reads ≤ script.lastRead ∧ w.writes = 0 ∧ w.written = [] ∧ w.calls ≤ w.reads + 4

def Unwritten (w : Session) : Prop := w.writes = 0 ∧ w.written = []

/-- Behind a read: one more, and not the last one if another is asked for. -/
def Answered (script : Script response) (r : Reply) (w : Session) : Prop :=
  Unwritten w ∧ 0 < w.reads ∧ w.reads ≤ script.lastRead + 1 ∧ w.calls ≤ w.reads + 4 ∧
    r.bytes.length < 1024 ∧ (wantsRetry r = true → w.reads ≤ script.lastRead)

theorem triple_read :
    (owed script).Triple (Reading script) (Code.ask (.sslRead .server 1023)) (Answered script) := by
  refine Setting.triple_ask (stable _) (fun _ => stable _) ?_ ?_
  · intro w hw
    obtain ⟨hreads, _, _, hcalls⟩ := hw
    change w.calls ≤ script.lastRead + 9
    omega
  · intro w r w' hw ha
    obtain ⟨hreads, hwrites, hwritten, hcalls⟩ := hw
    obtain ⟨rfl, rfl⟩ := Script.respond_read ha.1
    have hlen := (possible_sslRead (script.reads_possible w.reads)).1
    refine ⟨⟨hwrites, hwritten⟩, Nat.succ_pos _, Nat.succ_le_succ hreads, ?_, by omega, ?_⟩
    · simp only [Session.read]
      omega
    · intro hretry
      have hne : w.reads ≠ script.lastRead := by
        intro heq
        rw [heq, script.wantsRetry_lastRead] at hretry
        cases hretry
      exact Nat.lt_of_le_of_ne hreads hne

theorem triple_readRound (msg : Str) :
    (owed script).Triple (Reading script) (readRound msg)
      (Setting.Round (fun _ => Reading script) fun _ w =>
        Unwritten w ∧ w.calls ≤ script.lastRead + 5) := by
  refine Setting.triple_bind triple_read fun r => ?_
  refine Setting.triple_bind (triple_appendBuffer (B := fun _ => Answered script r) (stable _)
    (fun _ => stable _) (fun _ _ h _ => h) ?_) fun msg => ?_
  · intro hnone w hw
    obtain ⟨_, _, _, _, hlen, _⟩ := hw
    rw [Bytes.untilFirst_intoArray_of_lt hlen] at hnone
    cases hnone
  · have hleave : ∀ w, Answered script r w → Unwritten w ∧ w.calls ≤ script.lastRead + 5 := by
      intro w hw
      obtain ⟨hunwritten, _, hreads, hcalls, _⟩ := hw
      exact ⟨hunwritten, by omega⟩
    split
    · exact Setting.triple_ret (stable _) hleave
    · split
      · rename_i hretry
        refine Setting.triple_ret (stable _) fun w hw => ?_
        obtain ⟨hunwritten, _, _, hcalls, _, hmore⟩ := hw
        exact ⟨hmore hretry, hunwritten.1, hunwritten.2, hcalls⟩
      · exact Setting.triple_ret (stable _) hleave

/-- The one write was made, and took what its result says. -/
def Wrote (script : Script response) (w : Session) : Prop := w.written = (script.writes 0).bytes

/-- A retry code ends in the endless loop; otherwise the sign of the result decides. -/
theorem triple_writeLoop (writeRet : Int) : (owed script).Triple
    (fun w => writeRet = (script.writes 0).ret ∧ Wrote script w ∧
      w.calls ≤ script.lastRead + 6)
    (Code.loop writeRet writeRound Code.ret)
    (fun sent w => (Wrote script w ∧ w.calls ≤ script.lastRead + 6) ∧
      (sent = true → 0 < (script.writes 0).ret)) := by
  by_cases hretry : writeRet = errSslWantRead ∨ writeRet = errSslWantWrite
  · refine Setting.triple_loop_silent (pending_writeRound hretry) (stable _) fun w hw => ?_
    obtain ⟨rfl, _, hcalls⟩ := hw
    refine ⟨by omega, ?_⟩
    rw [wantsRetry, Bool.or_eq_true, beq_iff_eq, beq_iff_eq]
    exact hretry
  · refine Setting.triple_loop_left (writeRound_eq hretry) ?_
    refine Setting.triple_ret (stable _) fun w hw => ?_
    obtain ⟨rfl, hwrote, hcalls⟩ := hw
    exact ⟨⟨hwrote, hcalls⟩, of_decide_eq_true⟩

theorem triple_write (writeBuf : Str) : (owed script).Triple
    (fun w => Unwritten w ∧ w.calls ≤ script.lastRead + 5) (int (.sslWrite .server writeBuf))
    (fun writeRet w => writeRet = (script.writes 0).ret ∧ Wrote script w ∧
      w.calls ≤ script.lastRead + 6) := by
  refine triple_int (stable _) (fun _ => stable _) ?_ ?_
  · intro w hw
    obtain ⟨_, hcalls⟩ := hw
    change w.calls ≤ script.lastRead + 9
    omega
  · intro w r w' hw ha
    obtain ⟨⟨hwrites, hwritten⟩, hcalls⟩ := hw
    obtain ⟨rfl, rfl⟩ := Script.respond_write ha.1
    rw [hwrites]
    refine ⟨rfl, ?_, Nat.succ_le_succ hcalls⟩
    simp only [Wrote, Session.wrote, hwritten, List.nil_append]

/-- What is known once the write loop is left. -/
def Sent (script : Script response) (sent : Bool) (w : Session) : Prop :=
  Wrote script w ∧ (sent = true → 0 < (script.writes 0).ret)

theorem triple_writeResponse {ciphersuite : Str}
    (hname : (HTTP_RESPONSE ciphersuite).length < 1024) : (owed script).Triple
      (fun w => Unwritten w ∧ w.calls ≤ script.lastRead + 5) (writeResponse ciphersuite)
      (fun sent w => Sent script sent w ∧ w.calls ≤ script.lastRead + 6) := by
  rw [writeResponse_eq hname]
  refine Setting.triple_bind (triple_write _) fun writeRet => ?_
  refine (triple_writeLoop writeRet).post fun sent w hw => ?_
  obtain ⟨⟨hwrote, hcalls⟩, hsent⟩ := hw
  exact ⟨⟨hwrote, hsent⟩, hcalls⟩

theorem triple_closeClient {P : Session → Prop} (hP : ∀ w, P w → P w.called) :
    (owed script).Triple (fun w => P w ∧ w.calls ≤ script.lastRead + 6) closeClient
      (fun _ w => P w ∧ w.calls ≤ script.lastRead + 9) := by
  have hclose : Script.Free (.sslCloseNotify .server) := .inr (.inr (.inr (.inr rfl)))
  refine Setting.triple_bind (triple_free_int hP hclose (by omega)) fun ret => ?_
  split
  · exact Setting.triple_ret (stable _) fun w hw => ⟨hw.1, by omega⟩
  · refine Setting.triple_bind (triple_free_void hP (.inl rfl) (by omega)) fun _ => ?_
    refine Setting.triple_bind (triple_free_void hP (.inr (.inl rfl)) (by omega)) fun _ => ?_
    exact Setting.triple_ret (stable _) fun _ h => h

/-- It is left with `true` only behind a write that took something. -/
theorem triple_getClientMsg {ciphersuite : Str} (msg : Str)
    (hname : (HTTP_RESPONSE ciphersuite).length < 1024) : (owed script).Triple
      (fun w => Fresh w ∧ w.calls ≤ 0) (getClientMsg ciphersuite msg)
      (fun res w => (res.1 = true → Sent script true w) ∧ w.calls ≤ script.lastRead + 9) := by
  refine Setting.triple_bind triple_acceptClient fun accepted => ?_
  cases accepted with
  | false =>
    rw [if_pos rfl]
    exact Setting.triple_ret (stable _) fun w hw => ⟨nofun, by omega⟩
  | true =>
    rw [if_neg (by decide)]
    have hread : (owed script).Triple (fun w => Fresh w ∧ w.calls ≤ 4)
        (Code.loop msg readRound Code.ret)
        (fun _ w => Unwritten w ∧ w.calls ≤ script.lastRead + 5) := by
      refine (Setting.triple_loop (J := fun _ => Reading script) triple_readRound nofun
        fun _ => Setting.triple_ret (stable _) fun _ h => h).pre fun w hw => ?_
      obtain ⟨⟨hreads, hwrites, hwritten⟩, hcalls⟩ := hw
      exact ⟨by omega, hwrites, hwritten, by omega⟩
    refine Setting.triple_bind hread fun msg => ?_
    refine Setting.triple_bind (triple_writeResponse hname) fun sent => ?_
    cases sent with
    | false =>
      rw [if_pos rfl]
      exact Setting.triple_ret (stable _) fun w hw => ⟨nofun, by omega⟩
    | true =>
      rw [if_neg (by decide)]
      have hsent : ∀ w, Sent script true w → Sent script true w.called := fun _ h => h
      refine Setting.triple_bind (triple_closeClient hsent) fun closed => ?_
      exact Setting.triple_ret (stable _) fun w hw => ⟨fun _ => hw.1, hw.2⟩

end Contract

section Runs

variable {response : Str} {script : Script response} {c : Call} {w : Session} {msg : Str}

abbrev Leads (script : Script response) {α : Type} (m : Prog α) (w : Session) (m' : Prog α)
    (v : Session) : Prop :=
  script.machine.Leads Machine.any m w m' v

theorem leads_free_int (hc : Script.Free c) : Leads script (int c) w (.ret 0) w.called :=
  leads_int (Script.respond_free hc ⟨0, []⟩) trivial

theorem leads_free_void (hc : Script.Free c) : Leads script (void c) w (.ret ()) w.called :=
  leads_void (Script.respond_free hc ⟨0, []⟩) trivial

variable (script)

theorem leads_acceptClient (w : Session) :
    ∃ v, Leads script acceptClient w (.ret true) v ∧ v.reads = w.reads ∧ v.writes = w.writes ∧
      v.written = w.written := by
  refine ⟨w.called.called.called.called, ?_, rfl, rfl, rfl⟩
  refine (leads_free_void (.inl rfl)).andThen ?_
  refine (leads_free_void (.inr (.inl rfl))).andThen ?_
  refine (leads_free_int (.inr (.inr (.inl rfl)))).andThen ?_
  exact (leads_free_int (.inr (.inr (.inr (.inl rfl))))).andThen (.refl _ _)

theorem leads_readRound (w : Session) (msg : Str) :
    Leads script (Code.loop msg readRound Code.ret) w
      (Code.next readRound Code.ret (if wantsRetry (script.reads w.reads) = true then
        .inl (msg ++ (script.reads w.reads).bytes.takeWhile (· ≠ 0)) else
        .inr (msg ++ (script.reads w.reads).bytes.takeWhile (· ≠ 0))))
      w.read := by
  have hlen := (possible_sslRead (script.reads_possible w.reads)).1
  have hanswer : script.machine.respond w () (.sslRead .server 1023) (script.reads w.reads) =
      some w.read := by
    simp only [Script.machine, Script.respond, if_true]
  have hrest : Leads script ((readRound msg).resume (script.reads w.reads)) w.read _ _ :=
    .refl _ _
  have hloop := Machine.leads_loop (k := Code.ret) (pending_readRound msg) hanswer trivial hrest
  rwa [resume_readRound (by omega)] at hloop

/-- The reads go on to the last one. -/
theorem leads_readLoop {n : Nat} (hn : w.reads + n = script.lastRead) (msg : Str) :
    ∃ msg' v, Leads script (Code.loop msg readRound Code.ret) w (.ret msg') v ∧
      v.writes = w.writes ∧ v.written = w.written := by
  induction n generalizing w msg with
  | zero =>
    have hround := leads_readRound script w msg
    rw [show w.reads = script.lastRead from hn, script.wantsRetry_lastRead] at hround
    exact ⟨_, _, hround, rfl, rfl⟩
  | succ n ih =>
    have hround := leads_readRound script w msg
    rw [Script.wantsRetry_of_lt (by omega)] at hround
    have hread : w.read.reads + n = script.lastRead := by
      simp only [Session.read]
      omega
    obtain ⟨msg', v, hleads, hwrites, hwritten⟩ := ih hread _
    exact ⟨msg', v, hround.trans hleads, hwrites, hwritten⟩

theorem leads_write (writeBuf : Str) (hwrites : w.writes = 0) (hwritten : w.written = []) :
    ∃ v, Leads script (int (.sslWrite .server writeBuf)) w (.ret (script.writes 0).ret) v ∧
      v.written = (script.writes 0).bytes := by
  have hanswer : script.machine.respond w () (.sslWrite .server writeBuf) (script.writes 0) =
      some (w.wrote (script.writes 0).bytes) := by
    simp only [Script.machine, Script.respond, hwrites, if_true]
  refine ⟨_, leads_int hanswer trivial, ?_⟩
  simp only [Session.wrote, hwritten, List.nil_append]

theorem leads_closeClient (w : Session) :
    ∃ v, Leads script closeClient w (.ret true) v ∧ v.written = w.written := by
  refine ⟨w.called.called.called, ?_, rfl⟩
  refine (leads_free_int (.inr (.inr (.inr (.inr rfl))))).andThen ?_
  refine (leads_free_void (.inl rfl)).andThen ?_
  exact (leads_free_void (.inr (.inl rfl))).andThen (.refl _ _)

/-- What is behind the write. -/
def afterWrite (writeRet : Int) (msg : Str) : Prog (Bool × Str) :=
  (Code.loop writeRet writeRound Code.ret).bind fun sent =>
    if sent = false then .ret (false, msg) else
      closeClient.bind fun closed => .ret (closed, msg)

/-- The exchange gets to its write. -/
theorem leads_written {ciphersuite : Str} (script : Script (HTTP_RESPONSE ciphersuite))
    (hname : (HTTP_RESPONSE ciphersuite).length < 1024) (msg : Str) :
    ∃ msg' v, Leads script (getClientMsg ciphersuite msg) {}
      (afterWrite (script.writes 0).ret msg') v ∧ v.written = (script.writes 0).bytes := by
  obtain ⟨w, haccept, hreads, hwrites, hwritten⟩ := leads_acceptClient script {}
  have hlast : w.reads + script.lastRead = script.lastRead := by
    rw [hreads]
    exact Nat.zero_add _
  obtain ⟨msg', u, hread, hwrites', hwritten'⟩ := leads_readLoop script hlast msg
  obtain ⟨v, hwrite, hbytes⟩ := leads_write script (HTTP_RESPONSE ciphersuite)
    (hwrites'.trans hwrites) (hwritten'.trans hwritten)
  refine ⟨msg', v, ?_, hbytes⟩
  refine haccept.andThen ?_
  rw [if_neg (by decide)]
  refine hread.andThen ?_
  rw [Code.bind_eq, writeResponse_eq hname]
  exact (hwrite.bind _).bind _

end Runs

section Exchange

variable {ciphersuite : Str} {script : Script (HTTP_RESPONSE ciphersuite)} {msg : Str}

/-- What every reached state of an exchange satisfies. -/
theorem Reached.holds (hname : (HTTP_RESPONSE ciphersuite).length < 1024)
    {t : Config Session Unit Call Reply (Bool × Str)} (ht : Reached ciphersuite msg script t) :
    (owed script).Holds (t.code ()) (fun res w => (res.1 = true → Sent script true w) ∧
      w.calls ≤ script.lastRead + 9) t.world :=
  Machine.Reaches.alone ht (triple_getClientMsg msg hname) ⟨⟨rfl, rfl, rfl⟩, Nat.le_refl 0⟩

theorem Reached.calls_le (hname : (HTTP_RESPONSE ciphersuite).length < 1024)
    {t : Config Session Unit Call Reply (Bool × Str)} (ht : Reached ciphersuite msg script t) :
    t.world.calls ≤ script.lastRead + 9 := by
  have hholds := ht.holds hname
  cases hp : (t.code ()).pending with
  | returned res => exact (hholds.returned hp).2
  | undefined => exact (hholds.undefined hp).1
  | calling c => exact hholds.pre hp

/-- The endless loop is the only way not to end. -/
theorem ends_iff (hname : (HTTP_RESPONSE ciphersuite).length < 1024) :
    Ends ciphersuite msg script ↔ wantsRetry (script.writes 0) = false := by
  constructor
  · intro h
    obtain ⟨msg', v, hleads, _⟩ := leads_written script hname msg
    by_contra hretry
    rw [Bool.not_eq_false, wantsRetry, Bool.or_eq_true, beq_iff_eq, beq_iff_eq] at hretry
    refine h.2 _ hleads ?_
    change (afterWrite (script.writes 0).ret msg').pending = .undefined
    have hspin : (Code.loop (script.writes 0).ret writeRound
        (Code.ret (C := Call) (R := Reply))).pending = .undefined := by
      simp only [Code.pending, pending_writeRound hretry]
    rw [afterWrite, Code.pending_bind, hspin]
  · intro hretry
    refine ⟨⟨_, fun t ht => ht.calls_le hname⟩, ?_⟩
    intro t ht hundefined
    have hfault : wantsRetry (script.writes 0) = true :=
      ((ht.holds hname).undefined hundefined).2
    rw [hretry] at hfault
    cases hfault

/-- With a count it can be left with `true`. -/
theorem exists_true (msg : Str) (hname : (HTTP_RESPONSE ciphersuite).length < 1024)
    (hpos : 0 < (script.writes 0).ret) :
    ∃ t out, Reached ciphersuite msg script t ∧ (t.code ()).pending = .returned (true, out) ∧
      t.world.written = (script.writes 0).bytes := by
  obtain ⟨msg', v, hleads, hwritten⟩ := leads_written script hname msg
  obtain ⟨u, hclose, hkept⟩ := leads_closeClient script v
  have hcount : ¬ ((script.writes 0).ret = errSslWantRead ∨
      (script.writes 0).ret = errSslWantWrite) := by
    rintro (heq | heq) <;> rw [heq] at hpos <;> cases hpos
  have hbehind : Leads script (closeClient.bind fun closed => .ret (closed, msg')) v
      (.ret (true, msg')) u := hclose.andThen (.refl _ _)
  have hbody := writeRound_eq hcount
  rw [decide_eq_true hpos] at hbody
  obtain ⟨t, ht, hreturned, hworld⟩ := Machine.Leads.left
    (k := fun sent => if sent = false then .ret (false, msg') else
      closeClient.bind fun closed => .ret (closed, msg')) hbody hbehind
  refine ⟨t, msg', Machine.Reaches.trans hleads ht, hreturned, ?_⟩
  rw [hworld, hkept, hwritten]

/-- A part of the page may be all that was taken. -/
theorem trueOnlyIf_iff (hname : (HTTP_RESPONSE ciphersuite).length < 1024) (P : Str → Prop) :
    TrueOnlyIf ciphersuite msg script P ↔
      (0 < (script.writes 0).ret → P (script.writes 0).bytes) := by
  constructor
  · intro h hpos
    obtain ⟨t, out, ht, hreturned, hwritten⟩ := exists_true msg hname hpos
    rw [← hwritten]
    exact h t out ht hreturned
  · intro h t out ht hreturned
    obtain ⟨hwrote, hpos⟩ := ((ht.holds hname).returned hreturned).1 rfl
    rw [show t.world.written = (script.writes 0).bytes from hwrote]
    exact h (hpos rfl)

def whole (response : Str) : Reply := ⟨response.length, response⟩

theorem possible_whole (response : Str) : Possible (.sslWrite .server response) (whole response) :=
  .inr ⟨rfl, List.prefix_rfl, id⟩

theorem wantsRetry_whole (response : Str) : wantsRetry (whole response) = false := by
  rw [Bool.eq_false_iff]
  intro h
  exact absurd (wantsRetry_neg h) (Int.not_lt.mpr (Int.natCast_nonneg _))

/-- Reads and writes that succeed, but for the first write. -/
def Script.firstWrite {response : Str} (first : Reply)
    (hfirst : Possible (.sslWrite .server response) first) : Script response where
  reads _ := ⟨1, text "a"⟩
  writes k := if k = 0 then first else whole response
  reads_possible _ := by decide
  writes_possible k := by
    split
    · exact hfirst
    · exact possible_whole response
  reads_end n := ⟨n, Nat.le_refl n, by decide⟩
  writes_end n := ⟨n + 1, Nat.le_succ n, wantsRetry_whole response⟩

/-- The exchange ends, and `true` stands for a written page, exactly if the first write is not
to be made again. -/
theorem exchange_ends_iff (ciphersuite msg : Str) (script : Script (HTTP_RESPONSE ciphersuite))
    (hname : (HTTP_RESPONSE ciphersuite).length < 1024) :
    ((Ends ciphersuite msg script ∧
        TrueOnlyIf ciphersuite msg script (· = HTTP_RESPONSE ciphersuite)) ↔
      wantsRetry (script.writes 0) = false ∧
        (0 < (script.writes 0).ret → (script.writes 0).bytes = HTTP_RESPONSE ciphersuite)) ∧
    ((Ends ciphersuite msg script ∧ TrueOnlyIf ciphersuite msg script (· ≠ [])) ↔
      wantsRetry (script.writes 0) = false) := by
  have hsome : 0 < (script.writes 0).ret → (script.writes 0).bytes ≠ [] := by
    intro hpos hempty
    obtain ⟨hneg, _⟩ | ⟨hlen, _⟩ := script.writes_possible 0
    · omega
    · rw [hempty] at hlen
      exact absurd hlen (Int.ne_of_gt hpos)
  rw [ends_iff hname, trueOnlyIf_iff hname, trueOnlyIf_iff hname]
  exact ⟨Iff.rfl, and_iff_left hsome⟩

/-- What `mbedtls_ssl_get_ciphersuite` says of a session that uses this suite. -/
def ciphersuiteName : Str := text "TLS-ECDHE-RSA-WITH-AES-256-GCM-SHA384"

/-- The first write takes the whole page. -/
theorem whole_page_sent :
    Ends ciphersuiteName [] (.firstWrite (whole _) (possible_whole _)) ∧
    TrueOnlyIf ciphersuiteName [] (.firstWrite (whole _) (possible_whole _))
      (· = HTTP_RESPONSE ciphersuiteName) :=
  (exchange_ends_iff ciphersuiteName [] _ (by decide +kernel)).1.mpr
    ⟨wantsRetry_whole _, fun _ => rfl⟩

/-- The first write is to be made again, and would then succeed. -/
theorem retried_write_spins : ¬ ∀ (ciphersuite msg : Str)
    (script : Script (HTTP_RESPONSE ciphersuite)), (HTTP_RESPONSE ciphersuite).length < 1024 →
    Ends ciphersuite msg script ∧ TrueOnlyIf ciphersuite msg script (· ≠ []) := by
  intro hall
  have hname : (HTTP_RESPONSE ciphersuiteName).length < 1024 := by decide +kernel
  obtain ⟨hends, _⟩ := hall ciphersuiteName []
    (.firstWrite ⟨errSslWantWrite, []⟩ (.inl ⟨by decide, rfl⟩)) hname
  cases (ends_iff hname).mp hends

end Exchange

end SGXess.Controller.Attestation
