import SGXessControll.Connection

/-!
# Whom the managers send to

A handshake with a bad certificate completes, because the clients ask for verification but
do not require it. What becomes of the session then is decided by `connect` alone.
-/

namespace SGXess.Desk

set_option autoImplicit false

open Calls Queue

variable {h : Handoff}

/-- Application data is written only after `connect` has returned `true`. -/
def Connected (w : Desk) : Prop := w.session.Verified ∨ w.session.Refused

def AfterConnect (c : Call) (w : Desk) : Prop := ∀ buf, c = .sslWrite .client buf → w.Connected

abbrev talker (h : Handoff) : Setting Desk Call Reply :=
  (machine h).alone Machine.any AfterConnect fun _ => False

theorem talker_stable {A : Desk → Prop}
    (hA : ∀ w x, A w → A { w with queue := h.push w.queue x }) : (talker h).Stable A :=
  stable_insert hA

theorem afterConnect_of_ne {c : Call} {w : Desk} (hc : ∀ buf, c ≠ .sslWrite .client buf) :
    AfterConnect c w := fun buf hbuf => absurd hbuf (hc buf)

theorem session_stable (P : Session → Prop) : (talker h).Stable fun w => P w.session :=
  talker_stable fun _ _ hw => hw

theorem connected_stable : (talker h).Stable Connected :=
  session_stable fun s => s.Verified ∨ s.Refused

theorem true_stable : (talker h).Stable fun _ => True := talker_stable fun _ _ hw => hw

theorem triple_talker_connect {IP port : Str} :
    (talker h).Triple (fun _ => True) (TLSClient.connectWith .tcp (fun ret => ret) IP port)
      (fun b w => Session.Connected (fun ret => ret) b w.session) :=
  (triple_connect (Q := fun _ => True)
    (fun _ _ hc _ _ => afterConnect_of_ne (ofConnect_ne_write hc)) (fun _ _ _ => trivial)
    (fun _ _ _ => trivial) (fun _ _ hw => hw) fun _ _ => ⟨trivial, afterConnect_of_ne nofun⟩).post
      fun _ _ hw => hw.2

theorem connected_of_true {w : Desk} (hw : Session.Connected (fun ret => ret) true w.session) :
    w.Connected := by
  generalize hb : true = b at hw
  cases hw with
  | verified hs _ => exact Or.inl hs
  | broken _ => cases hb
  | refused hs _ => exact Or.inr hs

theorem triple_talker_terminate {Φ : Unit → Desk → Prop} :
    (talker h).Triple (fun _ => True) TLSClient.terminate Φ :=
  triple_terminate (fun _ _ _ => trivial) (fun _ _ => trivial) fun _ _ =>
    ⟨afterConnect_of_ne nofun, afterConnect_of_ne nofun, afterConnect_of_ne nofun⟩

theorem triple_talker_sendMsg {msg : Str} :
    (talker h).Triple Connected (sslSendMsg .client msg) (fun _ => Connected) := by
  have keep : ∀ w r w', Connected w → (talker h).answer w (.sslWrite .client msg) r w' →
      Connected w' := by
    intro w r w' hw hr
    rw [Connected, respond_session rfl hr.1]
    exact hw
  apply triple_sslSendMsg connected_stable (fun _ => connected_stable)
  · exact fun w hw _ _ => hw
  · exact fun w r w' hw hr _ => keep w r w' hw hr
  · exact fun w r w' hw hr _ => keep w r w' hw hr

theorem triple_talker_recvMsg {onTimeout appends : Bool} {msg : Str} :
    (talker h).Triple Connected (sslRecvMsg .client onTimeout appends msg)
      (fun _ => Connected) := by
  apply triple_sslRecvMsg connected_stable (fun _ => connected_stable)
  · exact fun w _ => afterConnect_of_ne nofun
  · intro w r w' hw hr _
    rw [Connected, respond_session rfl hr.1]
    exact hw
  · intro w r w' hw hr _
    refine ⟨?_, by rw [Connected, respond_session rfl hr.1]; exact hw⟩
    obtain ⟨hr, _⟩ := hr
    simp only [machine, respond] at hr
    split at hr
    · assumption
    · cases hr

theorem triple_deployer_talks :
    (talker h).Triple (fun _ => True) Deployer.PolicyManager.managePolicy (fun _ _ => True) := by
  refine Setting.triple_whileTrue (fun _ => true_stable) (triple_popRound (B := fun _ _ => True)
    (k := fun policy => (Deployer.PolicyDeployer.deployPolicy policy _ _).bind fun _ => .ret _)
    true_stable ?_ ?_ fun policy _ => ?_) nofun
  · exact triple_pop (c := .popPolicy) (B := fun _ _ => True) rfl true_stable
      (fun _ => true_stable) (fun _ _ => afterConnect_of_ne nofun) fun _ _ => trivial
  · exact triple_sleep true_stable fun _ _ => afterConnect_of_ne nofun
  · refine Setting.triple_bind (Φ := fun _ _ => True) ?_ fun _ =>
      Setting.triple_ret true_stable fun _ _ => trivial
    exact Deployer.PolicyDeployer.triple_deployPolicy (session_stable _) connected_stable
      true_stable triple_talker_connect
      (triple_talker_sendMsg.pre fun w hw => connected_of_true hw)
      (triple_talker_terminate.pre fun _ _ => trivial) (fun _ _ => trivial) fun _ _ => trivial

theorem triple_talker_setTLSClient :
    (talker h).Triple (fun _ => True) Proxy.ProxyManager.setTLSClient
      (fun b w => b = true ∧ w.Connected) := by
  refine Proxy.ProxyManager.triple_setTLSClient (session_stable _) (fun w w' hr hw => ?_)
    triple_talker_connect (triple_talker_terminate.pre fun _ _ => trivial)
    fun w hw => ⟨rfl, connected_of_true hw⟩
  exact ⟨hw.1, connected_stable w w' hr hw.2⟩

theorem triple_proxy_talks :
    (talker h).Triple (fun _ => True) Proxy.ProxyManager.manageClient (fun _ _ => True) := by
  have stable : ∀ b : Bool, (talker h).Stable fun w => b = true ∧ w.Connected :=
    fun _ w w' hr hw => ⟨hw.1, connected_stable w w' hr hw.2⟩
  refine (Proxy.ProxyManager.triple_manageClient (B := fun b w => b = true ∧ w.Connected)
    (C := fun _ => Connected) (D := fun _ _ => False) (Q := fun _ => Connected) stable
    triple_talker_setTLSClient ?_ ?_ (fun _ _ => triple_talker_sendMsg) (fun client => ?_)
    (fun _ => False.elim) (fun _ => False.elim) ?_).post fun _ _ _ => trivial
  · exact (triple_pop (c := .popClient) (B := fun _ => Connected) rfl connected_stable
      (fun _ => connected_stable) (fun _ _ => afterConnect_of_ne nofun) fun _ hw => hw).pre
        fun _ hw => hw.2
  · exact (triple_sleep connected_stable fun _ _ => afterConnect_of_ne nofun).post
      fun _ _ hw => ⟨rfl, hw⟩
  · exact Setting.triple_bind (Φ := fun _ _ => False)
      (triple_talker_terminate.pre fun _ _ => trivial) fun _ =>
        Setting.triple_of_false fun _ hw => hw
  · exact triple_talker_recvMsg.post fun _ _ hw => ⟨rfl, hw⟩

theorem triple_validator_talks {req : Str} :
    (talker h).Triple (fun _ => True) (Proxy.Validator.validateRequest req)
      (fun _ _ => True) := by
  have done : ∀ b : Bool, (talker h).Triple Connected (.ret b) (fun _ _ => True) :=
    fun _ => Setting.triple_ret connected_stable fun _ _ => trivial
  refine Setting.triple_bind triple_talker_connect fun connected => ?_
  cases connected with
  | false => exact Setting.triple_ret (session_stable _) fun _ _ => trivial
  | true =>
    refine Setting.triple_bind (triple_talker_sendMsg.pre fun w hw => connected_of_true hw)
      fun sent => ?_
    cases sent with
    | false => exact done false
    | true =>
      refine Setting.triple_bind triple_talker_recvMsg fun received => ?_
      obtain ⟨received, msg⟩ := received
      cases received with
      | false => exact done false
      | true =>
        exact Setting.triple_bind (triple_talker_terminate.pre fun _ _ => trivial) fun _ =>
          Setting.triple_ret true_stable fun _ _ => trivial

/-- `connect` is true to its steps on the sessions of which `P` holds. -/
def Reports (h : Handoff) (P : Session → Prop) (connect : Str → Str → Prog Bool) : Prop :=
  ∀ (IP port : Str) (w : Desk) (t : Config Desk Unit Call Reply Bool) (b : Bool),
    (machine h).Reaches Machine.any (solo (connect IP port) w) t →
      (t.code ()).pending = .returned b →
      ((b = true ↔ t.world.session.ok = true ∧ t.world.session.flags = some 0) ↔
        P t.world.session)

/-- Whatever is written goes to a verified peer, on the sessions of which `P` holds. -/
def Talks (h : Handoff) (P : Session → Prop) {α : Type} (code : Prog α) : Prop :=
  ∀ (t : Config Desk Unit Call Reply α) (buf : Str),
    (machine h).Reaches Machine.any (solo code {}) t →
      (t.code ()).pending = .calling (.sslWrite .client buf) →
      (t.world.session.Verified ↔ P t.world.session)

theorem connect_outcome {proto : NetProto} {unverified : Int → Int} {IP port : Str} {w : Desk}
    {t : Config Desk Unit Call Reply Bool} {b : Bool}
    (ht : (machine h).Reaches Machine.any
      (solo (TLSClient.connectWith proto unverified IP port) w) t)
    (hb : (t.code ()).pending = .returned b) :
    Session.Connected unverified b t.world.session := by
  have htriple : ((machine h).alone Machine.any (fun _ _ => True) fun _ => True).Triple
      (fun _ => True) (TLSClient.connectWith proto unverified IP port)
      (fun b => Beside (fun _ => True) (Session.Connected unverified b)) :=
    triple_connect (fun _ _ _ _ _ => trivial) (fun _ _ _ => trivial) (fun _ _ _ => trivial)
      (fun _ _ hw => hw) fun _ _ => ⟨trivial, trivial⟩
  exact ((ht.alone htriple trivial).returned hb).2

theorem refused_not_flags {s : Session} (hs : s.Refused) : s.flags ≠ some 0 := by
  obtain ⟨_, f, hf, hne⟩ := hs
  rw [hf]
  intro h0
  exact hne (Option.some.inj h0)

theorem reports_connectWith {proto : NetProto} :
    Reports h (fun s => ¬ s.Refused) (TLSClient.connectWith proto fun ret => ret) := by
  intro IP port w t b ht hb
  cases connect_outcome ht hb with
  | verified hs hok =>
    refine iff_of_true ?_ fun hr => refused_not_flags hr hs.2.2
    exact iff_of_true rfl ⟨hok, hs.2.2⟩
  | broken hs =>
    refine iff_of_true ?_ fun hr => hr.not_broken hs
    exact iff_of_false (by decide) fun hf => by simp [hs.1] at hf
  | refused hs hok =>
    refine iff_of_false ?_ fun hn => hn hs
    intro hiff
    exact refused_not_flags hs (hiff.mp rfl).2

/-- The Client's copy, in which a refused certificate does set `ret`, is right. -/
theorem reports_client_connect : Reports h (fun _ => True) Client.TLSClient.connect := by
  intro IP port w t b ht hb
  refine iff_of_true ?_ trivial
  generalize hu : (fun _ => 1 : Int → Int) = unverified at ht
  cases connect_outcome ht hb with
  | verified hs hok => exact iff_of_true rfl ⟨hok, hs.2.2⟩
  | broken hs => exact iff_of_false (by decide) fun hf => by simp [hs.1] at hf
  | refused hs hok =>
    subst hu
    exact iff_of_false (by decide) fun hf => refused_not_flags hs hf.2

theorem talks_of_triple {α : Type} {code : Prog α} {Φ : α → Desk → Prop}
    (hcode : (talker h).Triple (fun _ => True) code Φ) :
    Talks h (fun s => ¬ s.Refused) code := by
  intro t buf ht hbuf
  have hconn : t.world.Connected := (ht.alone hcode trivial).pre hbuf buf rfl
  constructor
  · intro hv hr
    exact refused_not_flags hr hv.2.2
  · intro hn
    rcases hconn with hv | hr
    · exact hv
    · exact absurd hr hn

/-- The parts of the programs that connect and write. -/
inductive Talker where
  | deployer
  | proxy
  | validator (req : Str)

namespace Talker

def Result : Talker → Type
  | .deployer => Unit
  | .proxy | .validator _ => Bool

def handoff : Talker → Handoff
  | .deployer => Deployer.PolicyManager.handoff
  | .proxy | .validator _ => Proxy.ProxyManager.handoff

def connect : Talker → Str → Str → Prog Bool
  | .deployer => Deployer.TLSClient.connect
  | .proxy | .validator _ => Proxy.TLSClient.connect

def code : (talker : Talker) → Prog talker.Result
  | .deployer => Deployer.PolicyManager.managePolicy
  | .proxy => Proxy.ProxyManager.manageClient
  | .validator req => Proxy.Validator.validateRequest req

end Talker

theorem data_goes_to_verified_peers (talker : Talker) :
    Reports talker.handoff (fun s => ¬ s.Refused) talker.connect ∧
      Talks talker.handoff (fun s => ¬ s.Refused) talker.code := by
  cases talker with
  | deployer => exact ⟨reports_connectWith, talks_of_triple triple_deployer_talks⟩
  | proxy => exact ⟨reports_connectWith, talks_of_triple triple_proxy_talks⟩
  | validator req => exact ⟨reports_connectWith, talks_of_triple triple_validator_talks⟩

/-- A certificate refused with flag 1: the policy is written all the same. -/
theorem data_goes_to_refused_peer :
    ¬ Talks Deployer.PolicyManager.handoff (fun _ => True)
      Deployer.PolicyManager.managePolicy := by
  intro h
  have hrun : (machine Deployer.PolicyManager.handoff).observe Desk.session
      (solo Deployer.PolicyManager.managePolicy {})
      [.move [65], .reply () ⟨0, [65]⟩, .reply () ⟨0, []⟩, .reply () ⟨0, []⟩,
        .reply () ⟨0, []⟩, .reply () ⟨0, []⟩, .reply () ⟨0, []⟩, .reply () ⟨0, []⟩,
        .reply () ⟨0, []⟩, .reply () ⟨0, []⟩, .reply () ⟨1, []⟩] () =
      some (.calling (.sslWrite .client [65]), ⟨true, false, some 0, some 1⟩) := by
    decide +kernel
  obtain ⟨t, ht, hp, hs⟩ := Machine.reaches_of_observe hrun
  have hv := (h t [65] ht hp).mpr trivial
  rw [hs] at hv
  exact absurd hv.2.2 (by decide)

end SGXess.Desk
