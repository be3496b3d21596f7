import SGXessControll.Handoff
import SGXessControll.Calls.Runs

/-!
# The policies of the Controller

`updatePolicy` never changes an entry, so after any sequence of policies an address has the
action of the first policy for it. The manager stops updating once the demo policies are
loaded.
-/

namespace SGXess.Controller.PolicyManager

set_option autoImplicit false

open Calls Queue

section Map

/-- The part of a policy in front of the separator. -/
def address (policy : Str) : Str := substr policy 0 (find policy 0x7c)

/-- If the part behind the separator is the text `allow`. -/
def allows (policy : Str) : Bool :=
  decide (substr policy ((find policy 0x7c + 1) % 2 ^ 64) npos = text "allow")

theorem updatePolicy_eq (m : PolicyMap) (policy : Str) :
    updatePolicy m policy = m.insert (address policy) (allows policy) := by
  unfold updatePolicy allows
  simp only [Bool.if_false_right, Bool.and_true]
  rfl

theorem foldl_updatePolicy (policies : List Str) (m : PolicyMap) (IP : Str) :
    policies.foldl updatePolicy m IP =
      (m IP).or ((policies.find? fun p => address p = IP).map allows) := by
  induction policies generalizing m with
  | nil => simp
  | cons p policies ih =>
    rw [List.foldl_cons, ih, updatePolicy_eq, PolicyMap.insert, List.find?_cons]
    by_cases hp : address p = IP
    · simp [hp]
    · simp [hp, Ne.symm hp]

def demoAddress (i j k : Nat) : Str :=
  text "192." ++ toStr i ++ text "." ++ toStr j ++ text "." ++ toStr k

theorem separator_not_mem (i j k : Nat) : (0x7c : UInt8) ∉ demoAddress i j k := by
  have hdigits : ∀ n, (0x7c : UInt8) ∉ toStr n := by
    intro n hn
    have hle := (toStr_digit hn).2
    exact absurd hle (by decide)
  have hdot : (0x7c : UInt8) ∉ text "." := by decide
  have hhead : (0x7c : UInt8) ∉ text "192." := by decide
  simp only [demoAddress, List.mem_append, not_or]
  exact ⟨⟨⟨⟨⟨hhead, hdigits i⟩, hdot⟩, hdigits j⟩, hdot⟩, hdigits k⟩

theorem address_demoPolicy (i j k : Nat) : address (demoPolicy i j k) = demoAddress i j k := by
  have hsplit : demoPolicy i j k = demoAddress i j k ++ 0x7c :: text "deny" := rfl
  have hfind : find (demoPolicy i j k) 0x7c = (demoAddress i j k).length := by
    rw [find, if_pos (by simp [hsplit]), hsplit,
      List.idxOf_append_of_notMem (separator_not_mem i j k)]
    simp
  rw [address, hfind, substr, List.drop_zero, hsplit, List.take_left]

/-- The addresses the manager loads at its start. -/
def Preloaded (IP : Str) : Prop :=
  ∃ i j k, i < 255 ∧ j < 255 ∧ k < 100 ∧ IP = demoAddress i j k

/-- The map behind the load loop. -/
def loaded : PolicyMap := demoPolicies.foldl updatePolicy fun _ => none

theorem loaded_eq_none_iff (IP : Str) : loaded IP = none ↔ ¬ Preloaded IP := by
  rw [loaded, foldl_updatePolicy, Option.none_or, Option.map_eq_none_iff, List.find?_eq_none]
  constructor
  · intro h hpre
    obtain ⟨i, j, k, hi, hj, hk, rfl⟩ := hpre
    refine h (demoPolicy i j k) ?_ (decide_eq_true (address_demoPolicy i j k))
    simp only [demoPolicies, List.mem_flatMap, List.mem_map, List.mem_range]
    exact ⟨i, hi, j, hj, k, hk, rfl⟩
  · intro h p hp haddr
    simp only [demoPolicies, List.mem_flatMap, List.mem_map, List.mem_range] at hp
    obtain ⟨i, hi, j, hj, k, hk, rfl⟩ := hp
    refine h ⟨i, j, k, hi, hj, hk, ?_⟩
    rw [← of_decide_eq_true haddr, address_demoPolicy]

end Map

/-- The manager's list with its history, and the map its loop and `validateRequest` share. -/
structure Store where
  queue : Fifo Str := Fifo.empty
  mapPolicy : PolicyMap := fun _ => none

namespace Store

/-- The non-empty policies popped so far. -/
def popped (w : Store) : List Str := w.queue.removed.filter (· ≠ [])

def respond (w : Store) (_ : Unit) (c : Call) (r : Reply) : Option Store :=
  match c with
  | .popPolicy =>
    if r.bytes = handoff.front w.queue then some { w with queue := handoff.take w.queue } else none
  | .updatePolicy policy =>
    some { w with mapPolicy := PolicyManager.updatePolicy w.mapPolicy policy }
  | .sleep => some w
  | _ => none

def insert (w : Store) (policy : Str) : Option Store :=
  some { w with queue := handoff.push w.queue policy }

def machine : Machine Store Unit Call Reply Str := ⟨respond, insert⟩

/-- The calls of the loop behind the load loop. -/
def ofLoop (c : Call) : Prop := c = .popPolicy ∨ c = .sleep

def Loaded (c : Call) (w : Store) : Prop := ofLoop c → w.mapPolicy = loaded

abbrev manager : Setting Store Call Reply := machine.alone Machine.any Loaded fun _ => False

theorem map_stable (P : PolicyMap → Prop) : manager.Stable fun w => P w.mapPolicy := by
  apply Machine.stable_alone
  intro w policy w' hw hm
  cases hm
  exact hw

theorem triple_load :
    manager.Triple (fun w => w.mapPolicy = fun _ => none)
      (demoPolicies.forM fun policy => void (.updatePolicy policy))
      (fun _ w => w.mapPolicy = loaded) := by
  have hload := Setting.triple_forM (S := manager) (f := fun policy => void (.updatePolicy policy))
    (I := fun done w => w.mapPolicy = done.foldl PolicyManager.updatePolicy fun _ => none)
    demoPolicies (fun done => map_stable fun m => m = _) ?_ []
  · rw [List.nil_append] at hload
    exact hload
  · intro done policy
    apply triple_void (map_stable fun m => m = _) (map_stable fun m => m = _)
    · intro w _ hc
      rcases hc with hc | hc <;> cases hc
    · intro w r w' hw hr
      cases hr.1
      rw [List.foldl_append, ← hw]
      rfl

theorem triple_manageLoop :
    manager.Triple (fun w => w.mapPolicy = loaded) manageLoop (fun _ _ => False) := by
  have stable : manager.Stable fun w => w.mapPolicy = loaded := map_stable fun m => m = loaded
  refine Setting.triple_whileTrue (fun _ _ _ _ hw => hw) (triple_popRound
    (B := fun _ w => w.mapPolicy = loaded) (k := fun _ => .ret (.inl ())) stable ?_ ?_
    fun _ _ => Setting.triple_ret stable fun w hw => show w.mapPolicy = loaded from hw) nofun
  · apply Setting.triple_ask stable (fun _ => stable) (fun w hw _ => hw)
    intro w r w' hw hr
    obtain ⟨hr, _⟩ := hr
    simp only [machine, respond] at hr
    split at hr
    · cases hr
      exact hw
    · cases hr
  · apply triple_void stable stable (fun w hw _ => hw)
    intro w r w' hw hr
    cases hr.1
    exact hw

theorem triple_managePolicy :
    manager.Triple (fun w => w.mapPolicy = fun _ => none) managePolicy (fun _ _ => False) :=
  Setting.triple_bind triple_load fun _ => triple_manageLoop

/-- The map the popped policies should have led to. -/
def expected (w : Store) : PolicyMap := w.popped.foldl PolicyManager.updatePolicy loaded

/-- No popped policy is dropped, and the answers follow all of them. -/
def TakesEffect (w : Store) : Prop :=
  w.mapPolicy = w.expected ∧
    ∀ IP, validateRequest w.mapPolicy IP = validateRequest w.expected IP

theorem expected_of_none {w : Store} {IP : Str} (hIP : ¬ Preloaded IP) :
    w.expected IP = (w.popped.find? fun p => address p = IP).map allows := by
  rw [expected, foldl_updatePolicy, (loaded_eq_none_iff IP).mpr hIP, Option.none_or]

theorem expected_of_preloaded {w : Store} {IP : Str} (hIP : Preloaded IP) :
    w.expected IP = loaded IP := by
  cases hl : loaded IP with
  | none => exact absurd hIP ((loaded_eq_none_iff IP).mp hl)
  | some v => rw [expected, foldl_updatePolicy, hl, Option.some_or]

theorem expected_eq_loaded_iff {w : Store} :
    loaded = w.expected ↔ ∀ p ∈ w.popped, Preloaded (address p) := by
  constructor
  · intro h p hp
    by_contra hpre
    have hnone := congrFun h (address p)
    rw [(loaded_eq_none_iff _).mpr hpre, expected_of_none hpre, eq_comm, Option.map_eq_none_iff,
      List.find?_eq_none] at hnone
    exact hnone p hp (decide_eq_true rfl)
  · intro h
    funext IP
    by_cases hIP : Preloaded IP
    · rw [expected_of_preloaded hIP]
    · rw [expected_of_none hIP, (loaded_eq_none_iff IP).mpr hIP, eq_comm, Option.map_eq_none_iff,
        List.find?_eq_none]
      intro p hp haddr
      exact hIP (of_decide_eq_true haddr ▸ h p hp)

theorem validateRequest_eq (m : PolicyMap) (IP : Str) :
    validateRequest m IP = (m IP).getD false := by
  unfold validateRequest
  cases m IP <;> rfl

theorem answers_agree_iff {w : Store} :
    (∀ IP, validateRequest loaded IP = validateRequest w.expected IP) ↔
      ∀ IP, ¬ Preloaded IP →
        (w.popped.find? fun p => address p = IP).map allows ≠ some true := by
  have hanswer : ∀ IP, ¬ Preloaded IP → (validateRequest loaded IP =
      validateRequest w.expected IP ↔
        (w.popped.find? fun p => address p = IP).map allows ≠ some true) := by
    intro IP hIP
    rw [validateRequest_eq, validateRequest_eq, (loaded_eq_none_iff IP).mpr hIP,
      expected_of_none hIP]
    rcases (w.popped.find? fun p => address p = IP).map allows with _ | _ | _ <;> simp
  constructor
  · exact fun h IP hIP => (hanswer IP hIP).mp (h IP)
  · intro h IP
    by_cases hIP : Preloaded IP
    · rw [validateRequest_eq, validateRequest_eq, expected_of_preloaded hIP]
    · exact (hanswer IP hIP).mpr (h IP hIP)

theorem foldl_load (policies : List Str) (w : Store) :
    policies.foldl (fun w p => { w with mapPolicy := PolicyManager.updatePolicy w.mapPolicy p }) w =
      { w with mapPolicy := policies.foldl PolicyManager.updatePolicy w.mapPolicy } := by
  induction policies generalizing w with
  | nil => rfl
  | cons p policies ih => rw [List.foldl_cons, ih, List.foldl_cons]

theorem reaches_popped {p : Str} (hp : p ≠ []) :
    ∃ t, machine.Reaches Machine.any (solo managePolicy {}) t ∧
      (t.code ()).pending = .calling .popPolicy ∧ t.world.popped = [p] := by
  have hupdate : ∀ p w, machine.Leads Machine.any (void (.updatePolicy p)) w (.ret ⟨⟩)
      { w with mapPolicy := PolicyManager.updatePolicy w.mapPolicy p } :=
    fun p w => leads_void (r := ⟨0, []⟩) rfl trivial
  have hload := Machine.leads_forM
    (g := fun (w : Store) p => { w with mapPolicy := PolicyManager.updatePolicy w.mapPolicy p })
    demoPolicies hupdate {}
  rw [foldl_load] at hload
  have hinsert : machine.Leads Machine.any manageLoop { mapPolicy := loaded } manageLoop
      { queue := handoff.push Fifo.empty p, mapPolicy := loaded } :=
    Machine.leads_move (e := p) rfl
  have hfront : handoff.front (handoff.push Fifo.empty p) = p := by
    rw [Handoff.front, handoff.pop_eq, handoff.push_eq]
    rfl
  have hpop : machine.respond { queue := handoff.push Fifo.empty p, mapPolicy := loaded } ()
      .popPolicy ⟨0, p⟩ =
        some { queue := handoff.take (handoff.push Fifo.empty p), mapPolicy := loaded } :=
    if_pos hfront.symm
  have hround : machine.Leads Machine.any (manageRound.resume ⟨0, p⟩)
      { queue := handoff.take (handoff.push Fifo.empty p), mapPolicy := loaded } (.ret (.inl ()))
      { queue := handoff.take (handoff.push Fifo.empty p), mapPolicy := loaded } := by
    cases p with
    | nil => exact absurd rfl hp
    | cons b p => exact .refl _ _
  have hloop : machine.Leads Machine.any manageLoop
      { queue := handoff.push Fifo.empty p, mapPolicy := loaded }
      ((Code.ret (.inl ())).bind (Code.next (fun _ => manageRound) Code.ret))
      { queue := handoff.take (handoff.push Fifo.empty p), mapPolicy := loaded } :=
    Machine.leads_loop rfl hpop trivial hround
  refine ⟨_, hload.andThen (hinsert.trans hloop), rfl, ?_⟩
  change (handoff.take (handoff.push Fifo.empty p)).removed.filter (· ≠ []) = [p]
  rw [handoff.take_removed, hfront, handoff.push_eq]
  simp [Fifo.empty, hp]

end Store

/-- In the manager's loop, popped policies are effective exactly if they are for addresses
of the demo policies; the answers are right as long as none is the first to allow another. -/
theorem policies_take_effect_iff {t : Config Store Unit Call Reply Unit}
    (ht : Store.machine.Reaches Machine.any (solo managePolicy {}) t) {c : Call}
    (hc : (t.code ()).pending = .calling c) (hloop : Store.ofLoop c) :
    (t.world.TakesEffect ↔ ∀ p ∈ t.world.popped, Preloaded (address p)) ∧
      ((∀ IP, validateRequest t.world.mapPolicy IP = validateRequest t.world.expected IP) ↔
        ∀ IP, ¬ Preloaded IP →
          (t.world.popped.find? fun p => address p = IP).map allows ≠ some true) := by
  have hmap : t.world.mapPolicy = loaded :=
    (ht.alone Store.triple_managePolicy rfl).pre hc hloop
  refine ⟨?_, by rw [hmap]; exact Store.answers_agree_iff⟩
  rw [← Store.expected_eq_loaded_iff]
  constructor
  · intro h
    rw [← hmap]
    exact h.1
  · intro h
    refine ⟨hmap.trans h, fun IP => ?_⟩
    rw [hmap, ← h]

theorem preloaded_takes_effect :
    ∃ t, Store.machine.Reaches Machine.any (solo managePolicy {}) t ∧
      t.world.popped = [text "192.0.0.0|allow"] ∧ t.world.TakesEffect := by
  obtain ⟨t, ht, hc, hpopped⟩ := Store.reaches_popped (p := text "192.0.0.0|allow") (by decide)
  refine ⟨t, ht, hpopped, (policies_take_effect_iff ht hc (Or.inl rfl)).1.mpr ?_⟩
  intro p hp
  rw [hpopped, List.mem_singleton] at hp
  rw [hp]
  exact ⟨0, 0, 0, by decide, by decide, by decide, by decide⟩

/-- A policy allows an address, is popped, and the address is denied. -/
theorem allowed_address_denied :
    ¬ ∀ t, Store.machine.Reaches Machine.any (solo managePolicy {}) t →
      (t.code ()).pending = .calling .popPolicy →
      ∀ IP, validateRequest t.world.mapPolicy IP = validateRequest t.world.expected IP := by
  intro hall
  obtain ⟨t, ht, hc, hpopped⟩ := Store.reaches_popped (p := text "10.0.0.1|allow") (by decide)
  have hmap : t.world.mapPolicy = loaded :=
    (ht.alone Store.triple_managePolicy rfl).pre hc (Or.inl rfl)
  have hagree := hall t ht hc
  rw [hmap] at hagree
  have hnew : ¬ Preloaded (text "10.0.0.1") := by
    intro hpre
    obtain ⟨i, j, k, _, _, _, heq⟩ := hpre
    have hsecond := congrArg (fun s : Str => s[1]?) heq
    have hnine : (demoAddress i j k)[1]? = some 0x39 := rfl
    rw [hnine] at hsecond
    exact absurd hsecond (by decide)
  have hnone := Store.answers_agree_iff.mp hagree (text "10.0.0.1") hnew
  rw [hpopped] at hnone
  exact hnone (by decide)

end SGXess.Controller.PolicyManager
