import SGXessControll.Transport

/-!
# What the Validator answers

`validateRequest` never looks at the reply of the Controller: a session without a failure
ends in `terminate`, which ends the process, and every other one in the answer `X`.
-/

namespace SGXess.Proxy.Validator

set_option autoImplicit false

open Calls SGXess.TLSClient

/-- The answer given to the client by a call, once it is not repeated any more. -/
def answerOf (c : Call) (r : Reply) : Option Str :=
  match c with
  | .sslWrite .server msg => if wantsRetry r = true then none else some msg
  | _ => none

/-- The answers given to the client. -/
def answers (w : Log) : List Str := w.filterMap fun p => answerOf p.1 p.2

def replyOf (c : Call) (r : Reply) : Option Str :=
  match c with
  | .sslRead .client _ => if 0 < r.ret then some r.bytes else none
  | _ => none

/-- What the Controller replied. -/
def reply (w : Log) : Option Str := w.findSome? fun p => replyOf p.1 p.2

/-- The client got one answer, which is `O` exactly if the Controller replied `Accept`. -/
def Enforced (w : Log) : Prop :=
  answers w = [if reply w = some (text "Accept") then text "O" else text "X"]

/-- A step of `connect`, the request or the reply failed. -/
def SessionFails (c : Call) (r : Reply) : Prop :=
  match c with
  | .sslWrite .client _ => r.ret < 0 ∧ wantsRetry r = false
  | .sslRead .client _ => r.ret ≤ 0 ∧ r.ret ≠ errSslPeerCloseNotify ∧ wantsRetry r = false
  | c => StepFails (fun ret => ret) c r

theorem answers_append (w : Log) (c : Call) (r : Reply) :
    answers (w ++ [(c, r)]) = answers w ++ (answerOf c r).toList := by
  rw [answers, List.filterMap_append]
  cases h : answerOf c r <;> simp [h, answers]

theorem reply_append (w : Log) (c : Call) (r : Reply) :
    reply (w ++ [(c, r)]) = (reply w).or (replyOf c r) := by
  simp [reply, List.findSome?_append]

/-- How far the session has come. -/
structure Stage (sent : List Str) (rep : Option Str) (broken : Prop) (w : Log) : Prop where
  sent_eq : answers w = sent
  reply_eq : reply w = rep
  broken_iff : Failed SessionFails w ↔ broken

section Stage

variable {sent : List Str} {rep : Option Str} {broken : Prop} {w : Log} {c : Call} {r : Reply}

theorem Stage.next (h : Stage sent rep broken w) :
    Stage (sent ++ (answerOf c r).toList) (rep.or (replyOf c r)) (broken ∨ SessionFails c r)
      (w ++ [(c, r)]) := by
  obtain ⟨hsent, hreply, hbroken⟩ := h
  refine ⟨by rw [answers_append, hsent], by rw [reply_append, hreply], ?_⟩
  rw [failed_append, hbroken]

/-- A call that neither answers the client nor brings the reply. -/
def quiet (c : Call) : Bool :=
  match c with
  | .sslWrite .server _ | .sslRead .client _ => false
  | _ => true

theorem answerOf_quiet (hc : quiet c = true) : answerOf c r = none := by
  cases c with
  | sslWrite side _ =>
    cases side with
    | client => rfl
    | server => cases hc
  | _ => rfl

theorem replyOf_quiet (hc : quiet c = true) : replyOf c r = none := by
  cases c with
  | sslRead side _ =>
    cases side with
    | client => cases hc
    | server => rfl
  | _ => rfl

theorem Stage.quiet_next (h : Stage sent rep broken w) (hc : quiet c = true) :
    Stage sent rep (broken ∨ SessionFails c r) (w ++ [(c, r)]) := by
  have hnext := h.next (c := c) (r := r)
  rwa [answerOf_quiet hc, replyOf_quiet hc, Option.toList_none, List.append_nil,
    Option.or_none] at hnext

theorem Stage.keep (h : Stage sent rep broken w) (hc : quiet c = true)
    (hr : ¬ SessionFails c r) : Stage sent rep broken (w ++ [(c, r)]) := by
  have hnext := h.quiet_next (r := r) hc
  rwa [or_iff_left hr |> propext] at hnext

theorem Stage.fail (h : Stage sent rep broken w) (hc : quiet c = true)
    (hr : SessionFails c r) : Stage sent rep True (w ++ [(c, r)]) := by
  have hnext := h.quiet_next (r := r) hc
  rwa [or_iff_right_of_imp (fun _ => hr) |> propext, eq_true hr] at hnext

theorem quiet_of_isStep (hc : isStep c = true) : quiet c = true := by
  cases c <;> first
    | rfl
    | cases hc

theorem sessionFails_of_isStep (hc : isStep c = true) :
    SessionFails c r ↔ StepFails (fun ret => ret) c r := by
  cases c <;> first
    | rfl
    | cases hc

end Stage

/-- Without a failure, the process ends before the client is answered. -/
def Unanswered (w : Log) : Prop := answers w = [] ∧ ¬ Failed SessionFails w

abbrev serving : Setting Log Call Reply :=
  logged (fun c w => (∃ n, c = .exit n) → Unanswered w) fun _ => False

section Run

variable {rep : Option Str}

/-- A call that can only fail without being looked at. -/
theorem triple_keep {sent : List Str} {broken : Prop} {c : Call} (hc : quiet c = true)
    (hexit : ∀ n, c ≠ .exit n) (hr : ∀ r, ¬ SessionFails c r) :
    serving.Triple (Stage sent rep broken) (void c) (fun _ => Stage sent rep broken) :=
  triple_logged_void (fun _ _ h => absurd h.choose_spec (hexit _))
    fun _ r hw _ => hw.keep hc (hr r)

theorem triple_terminate :
    serving.Triple (Stage [] rep False) terminate (fun _ _ => False) := by
  refine Setting.triple_bind (triple_keep rfl nofun fun _ h => h) fun _ => ?_
  refine Setting.triple_bind (triple_keep rfl nofun fun _ h => h) fun _ => ?_
  exact triple_logged_void (fun w hw _ => ⟨hw.sent_eq, fun h => hw.broken_iff.mp h⟩)
    fun _ _ _ hr => hr.elim

theorem triple_connect {IP port : Str} :
    serving.Triple (Stage [] none False) (TLSClient.connect IP port)
      (fun b w => if b = true then Stage [] none False w else Stage [] none True w) := by
  refine triple_logged_connect (L := Stage [] none False) (F := Stage [] none True)
    ?_ ?_ ?_ ?_ ?_ fun _ hw => hw
  · intro c w hc _ hexit
    obtain ⟨n, rfl⟩ := hexit
    cases hc
  · intro c w r hc hr hw
    exact hw.keep (quiet_of_isStep hc) fun h => hr ((sessionFails_of_isStep hc).mp h)
  · intro c w r hc hr hw
    exact hw.fail (quiet_of_isStep hc) ((sessionFails_of_isStep hc).mpr hr)
  · exact triple_keep rfl nofun fun _ h => h
  · exact triple_keep rfl nofun fun _ h => h

theorem triple_request {req : Str} :
    serving.Triple (Stage [] none False) (TLSClient.sendMsg req)
      (fun b w => if b = true then Stage [] none False w else Stage [] none True w) := by
  apply triple_logged_sendMsg fun _ _ h => nomatch h.choose_spec
  · intro w r hw _ hretry
    exact hw.keep rfl fun h => absurd (hretry.symm.trans h.2) nofun
  · intro w r hw _ hretry
    by_cases hneg : r.ret < 0
    · rw [decide_eq_false (by omega)]
      exact hw.fail rfl ⟨hneg, hretry⟩
    · rw [decide_eq_true (by omega)]
      exact hw.keep rfl fun h => hneg h.1

/-- Behind a read that succeeded the reply is known, and nothing has failed. -/
theorem triple_reply {msg : Str} :
    serving.Triple (Stage [] none False) (TLSClient.recvMsg msg)
      (fun res w =>
        if res.1 = true then ∃ rep, Stage [] rep False w else Stage [] none True w) := by
  apply triple_logged_recvMsg fun _ _ h => nomatch h.choose_spec
  · intro w r hw hretry
    have hneg := wantsRetry_neg hretry
    have hnext := hw.next (c := .sslRead .client 1023) (r := r)
    have hnone : replyOf (.sslRead .client 1023) r = none := if_neg (by omega)
    have hgo : ¬ SessionFails (.sslRead .client 1023) r :=
      fun h => absurd (hretry.symm.trans h.2.2) nofun
    rwa [hnone, or_iff_left hgo |> propext] at hnext
  · intro w r hw hretry
    have hnext := hw.next (c := .sslRead .client 1023) (r := r)
    by_cases hfails : r.ret ≤ 0 ∧ r.ret ≠ errSslPeerCloseNotify
    · have hfalse : (received false true msg r).1 = false := by
        by_cases htimeout : r.ret = errSslTimeout
        · rw [received, if_pos htimeout]
        · rw [received, if_neg htimeout, if_pos hfails]
      have hnone : replyOf (.sslRead .client 1023) r = none := if_neg (by omega)
      rw [hnone, eq_true (show SessionFails (.sslRead .client 1023) r from
        ⟨hfails.1, hfails.2, hretry⟩), or_true] at hnext
      rw [hfalse]
      exact hnext
    · have htimeout : r.ret ≠ errSslTimeout :=
        fun h => hfails ⟨by rw [h]; decide, by rw [h]; decide⟩
      have htrue : (received false true msg r).1 = true := by
        rw [received, if_neg htimeout, if_neg hfails]
      have hgo : ¬ SessionFails (.sslRead .client 1023) r := fun h => hfails ⟨h.1, h.2.1⟩
      rw [or_iff_left hgo |> propext] at hnext
      rw [htrue]
      exact ⟨_, hnext⟩

theorem triple_validateRequest {req : Str} :
    serving.Triple (Stage [] none False) (validateRequest req)
      (fun b w => b = false ∧ Stage [] none True w) := by
  have hfailed : serving.Triple (Stage [] none True) (.ret false)
      (fun b w => b = false ∧ Stage [] none True w) :=
    Setting.triple_ret (recorded_stable _) fun _ hw => ⟨rfl, hw⟩
  refine Setting.triple_bind triple_connect fun connected => ?_
  cases connected with
  | false => exact hfailed
  | true =>
    refine Setting.triple_bind triple_request fun sent => ?_
    cases sent with
    | false => exact hfailed
    | true =>
      refine Setting.triple_bind triple_reply fun res => ?_
      obtain ⟨received, msg⟩ := res
      cases received with
      | false => exact hfailed
      | true =>
        -- `terminate` does not come back.
        refine Setting.triple_bind (Φ := fun _ _ => False) ?_ fun _ =>
          Setting.triple_of_false fun _ h => h
        intro w hw
        obtain ⟨rep, hw⟩ := hw
        exact triple_terminate w hw

theorem triple_received :
    serving.Triple (Stage [] none False) (TLSServer.recvMsg []) (fun _ => Stage [] none False) := by
  apply triple_logged_recvMsg fun _ _ h => nomatch h.choose_spec
  · exact fun w r hw _ => hw.keep rfl id
  · exact fun w r hw _ => hw.keep rfl id

theorem triple_answer {msg : Str} :
    serving.Triple (Stage [] none True) (TLSServer.sendMsg msg)
      (fun _ => Stage [msg] none True) := by
  apply triple_logged_sendMsg fun _ _ h => nomatch h.choose_spec
  · intro w r hw _ hretry
    have hnext := hw.next (c := .sslWrite .server msg) (r := r)
    rwa [show answerOf (.sslWrite .server msg) r = none from if_pos hretry, true_or] at hnext
  · intro w r hw _ hretry
    have hnext := hw.next (c := .sslWrite .server msg) (r := r)
    have hanswer : answerOf (.sslWrite .server msg) r = some msg := by
      rw [answerOf, if_neg (by rw [hretry]; exact Bool.false_ne_true)]
    rwa [hanswer, true_or] at hnext

theorem triple_run :
    serving.Triple (Stage [] none False) run (fun _ => Stage [text "X"] none True) := by
  refine Setting.triple_bind triple_received fun res => ?_
  refine Setting.triple_bind triple_validateRequest fun ret => ?_
  cases ret with
  | true => exact Setting.triple_of_false fun _ hw => absurd hw.1 nofun
  | false =>
    refine Setting.triple_bind (triple_answer.pre fun _ hw => hw.2) fun _ => ?_
    exact triple_keep rfl nofun fun _ h => h

end Run

/-- The thread is done, or the process is about to end. -/
def Ended (t : Config Log Unit Call Reply Unit) : Prop :=
  (t.code ()).pending = .returned () ∨ ∃ n, (t.code ()).pending = .calling (.exit n)

/-- The client gets the right answer exactly where the session with the Controller fails:
otherwise it gets none. -/
theorem decision_enforced_iff {t : Config Log Unit Call Reply Unit} (ht : run.RunsTo Possible t)
    (hend : Ended t) : Enforced t.world ↔ Failed SessionFails t.world := by
  have hholds := ht.holds triple_run ⟨rfl, rfl, iff_of_false not_failed_nil id⟩
  rcases hend with hp | ⟨n, hp⟩
  · obtain ⟨hsent, hreply, hbroken⟩ := hholds.returned hp
    refine iff_of_true ?_ (hbroken.mpr trivial)
    rw [Enforced, hsent, hreply]
    rfl
  · obtain ⟨hsent, hunbroken⟩ := hholds.pre hp ⟨n, rfl⟩
    refine iff_of_false (fun henforced => ?_) hunbroken
    rw [Enforced, hsent] at henforced
    cases henforced

/-- The Controller cannot be reached, and the client is told `X`. -/
theorem refused_session_enforced :
    ∃ t, run.RunsTo Possible t ∧ Ended t ∧ Enforced t.world := by
  have hafter : run.after Possible
      [⟨1, text "a"⟩, ⟨0, []⟩, ⟨1, []⟩, ⟨0, []⟩, ⟨1, text "X"⟩, ⟨0, []⟩] =
        some (.returned (), [(.sslRead .server 1023, ⟨1, text "a"⟩), (.clientInit, ⟨0, []⟩),
          (.ctrDrbgSeed, ⟨1, []⟩), (.clientFree, ⟨0, []⟩),
          (.sslWrite .server (text "X"), ⟨1, text "X"⟩), (.sslFree, ⟨0, []⟩)]) := by rfl
  obtain ⟨t, ht, hp, hw⟩ := Code.runsTo_of_after hafter
  refine ⟨t, ht, Or.inl hp, (decision_enforced_iff ht (Or.inl hp)).mpr ?_⟩
  rw [hw]
  exact ⟨(.ctrDrbgSeed, ⟨1, []⟩), by simp, show (1 : Int) ≠ 0 by decide⟩

/-- The Controller replies `Accept`, and the client is not answered at all. -/
theorem accepted_request_unanswered :
    ¬ ∀ t, run.RunsTo Possible t → Ended t → Enforced t.world := by
  intro hall
  have hafter : run.after Possible
      ([⟨1, text "a"⟩] ++ List.replicate 9 ⟨0, []⟩ ++
        [⟨1, text "a"⟩, ⟨6, text "Accept"⟩, ⟨0, []⟩, ⟨0, []⟩]) =
        some (.calling (.exit 0), [(.sslRead .server 1023, ⟨1, text "a"⟩)] ++
          connected controllerIP controllerPort ++
          [(.sslWrite .client (text "a"), ⟨1, text "a"⟩),
            (.sslRead .client 1023, ⟨6, text "Accept"⟩), (.sslCloseNotify .client, ⟨0, []⟩),
            (.clientFree, ⟨0, []⟩)]) := by rfl
  obtain ⟨t, ht, hp, hw⟩ := Code.runsTo_of_after hafter
  have henforced := hall t ht (Or.inr ⟨0, hp⟩)
  rw [hw] at henforced
  exact absurd henforced (show ¬ ([] : List Str) = _ from nofun)

end SGXess.Proxy.Validator
