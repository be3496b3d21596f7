import SGXessControll.Acceptance

/-!
# Rejected policies

What a document leaves behind in an object that does not accept it.
-/

namespace SGXess.Policy

set_option autoImplicit false

open Attempts Attempt
open YAML YAML.Node

/-- Returned false, or left by an exception. -/
def Rejected (r : Except Failure Bool) : Prop :=
  r = .ok false ∨ ∃ e, r = .error e ∧ e ≠ .pastEnd

/-- What is reached is in the object already. -/
structure Unaffected (doc : Node) (p : Policy) : Prop where
  name : ∀ name, reachedName doc = some name → p.m_name = name
  namespaceName : ∀ namespaceName, reachedNamespace doc = some namespaceName →
    p.m_namespace = namespaceName
  action : ∀ action, reachedAction doc = some action → p.m_action = actionOf action

theorem getD_eq_self {α : Type} {value : Option α} {a : α} :
    value.getD a = a ↔ ∀ v, value = some v → a = v := by
  cases value with
  | none => simp
  | some v => simp [eq_comm]

theorem stored_eq_self {doc : Node} {p : Policy} : stored doc p = p ↔ Unaffected doc p := by
  have hfields : stored doc p = p ↔ (reachedName doc).getD p.m_name = p.m_name ∧
      (reachedNamespace doc).getD p.m_namespace = p.m_namespace ∧
      ((reachedAction doc).map actionOf).getD p.m_action = p.m_action := by
    rw [stored, Policy.mk.injEq]
    simp
  rw [hfields, getD_eq_self, getD_eq_self, getD_eq_self]
  constructor
  · intro h
    obtain ⟨hname, hnamespace, haction⟩ := h
    exact ⟨hname, hnamespace, fun action ha => haction _ (by rw [ha, Option.map_some])⟩
  · intro h
    refine ⟨h.name, h.namespaceName, fun a ha => ?_⟩
    obtain ⟨action, haction, rfl⟩ := Option.map_eq_some_iff.mp ha
    exact h.action action haction

theorem setPolicy_state_eq_self {load : Str → Option Node} {policyData : Str} {p : Policy} :
    (setPolicy load policyData p).state = p ↔
      ∀ doc, parsed load policyData = some doc → Unaffected doc p := by
  cases hparsed : parsed load policyData with
  | none => simp [(ends_setPolicy_none hparsed p).2]
  | some doc =>
    obtain ⟨r, hends, _⟩ := ends_setPolicy hparsed p
    rw [hends.2, stored_eq_self]
    simp

/-- An object that was built and whose document was refused. -/
theorem getAction_ofText {load : Str → Option Node} {policy : Str} {held : Action}
    (hrefused : (setPolicy load policy { m_action := held }).result = .ok false) :
    (ofText load policy held).state.getAction = .unknown ↔
      held = .unknown ∨
        ∃ doc, parsed load policy = some doc ∧ (reachedAction doc).isSome := by
  have hrun : (ofText load policy held).state =
      (setPolicy load policy { m_action := held }).state :=
    (Ends.bind (f := fun _ => ret ()) ⟨hrefused, rfl⟩ ends_ret).2
  rw [hrun]
  cases hparsed : parsed load policy with
  | none =>
    rw [(ends_setPolicy_none hparsed _).2]
    simp [getAction]
  | some doc =>
    obtain ⟨r, hends, hdecides⟩ := ends_setPolicy hparsed { m_action := held }
    have hnot : ¬ Accepts doc := by
      rw [← hdecides false (hends.1.symm.trans hrefused)]
      exact Bool.false_ne_true
    rw [hends.2, stored, getAction]
    cases haction : reachedAction doc with
    | none => simp [haction]
    | some action =>
      have hunknown : actionOf action = .unknown := by
        by_contra hne
        exact hnot ⟨action, haction, hne⟩
      simp [haction, hunknown]

/-- A rejected document leaves an object as it was where all it reached was there before. -/
theorem rejected_unchanged_iff (load : Str → Option Node) (policyData : Str) :
    (∀ p, Rejected (setPolicy load policyData p).result →
      ((setPolicy load policyData p).state = p ↔
        ∀ doc, parsed load policyData = some doc → Unaffected doc p)) ∧
    ∀ held, (setPolicy load policyData { m_action := held }).result = .ok false →
      ((ofText load policyData held).state.getAction = .unknown ↔
        held = .unknown ∨
          ∃ doc, parsed load policyData = some doc ∧ (reachedAction doc).isSome) :=
  ⟨fun _ _ => setPolicy_state_eq_self, fun _ => getAction_ofText⟩

/-- Name and namespace, and no `spec`. -/
def specless : Node :=
  .map [(.scalar API_VERSION_KEY, .scalar API_VERSION_VALUE),
    (.scalar KIND_KEY, .scalar KIND_VALUE), (.scalar METADATA_KEY, allowingMetadata)]

/-- An object that has the name and the namespace already is not changed. -/
theorem known_name_unaffected :
    (setPolicy (fun _ => some specless) (text "kind")
      { m_name := text "web", m_namespace := text "shop" }).state =
        { m_name := text "web", m_namespace := text "shop" } := by
  refine ((rejected_unchanged_iff (fun _ => some specless) (text "kind")).1 _ (.inl rfl)).mpr ?_
  rintro _ ⟨⟩
  constructor
  · rintro _ ⟨⟩
    rfl
  · rintro _ ⟨⟩
    rfl
  · rintro _ ⟨⟩

/-- Without an action the document is refused, but its name stays, and a new object has no
action at all. -/
theorem specless_leaves_traces :
    (¬ ∀ load policyData p, Rejected (setPolicy load policyData p).result →
      (setPolicy load policyData p).state = p) ∧
    ¬ ∀ load policyData held,
      (setPolicy load policyData { m_action := held }).result = .ok false →
        (ofText load policyData held).state.getAction = .unknown := by
  constructor
  · intro hall
    have hsame := hall (fun _ => some specless) (text "kind") {} (.inl rfl)
    have hname : (setPolicy (fun _ => some specless) (text "kind") {}).state.m_name =
        text "web" := rfl
    rw [hsame] at hname
    cases hname
  · intro hall
    have hunknown := hall (fun _ => some specless) (text "kind") .allow rfl
    cases hunknown

end SGXess.Policy
