import SGXessControll.Rejection

/-!
# One object, many documents

`setPolicy` can be called again and again on one object. What a document does not reach stays
from the documents before it, so the three fields may come from three of them. The entries are
reached in a fixed order, and that keeps the fields together where the last document that reached
anything reached everything.
-/

namespace SGXess.Policy

set_option autoImplicit false

open Attempts Attempt
open YAML YAML.Node

/-- One call, whether the document is accepted, refused or thrown out. Nothing is left behind
by a call that reads past the end of a vector; one that reads from a default iterator goes on. -/
def apply (load : Str → Option Node) (p : Policy) (policyData : Str) : Option Policy :=
  match setPolicy load policyData p with
  | ⟨.error .pastEnd, _, _⟩ => none
  | ⟨_, after, _⟩ => some after

/-- Calls one after another on one object. -/
def applyAll (load : Str → Option Node) (p : Policy) (texts : List Str) : Option Policy :=
  texts.foldlM (apply load) p

section History

variable {load : Str → Option Node} {p q : Policy} {texts : List Str}

theorem apply_eq_some {policyData : Str} (h : apply load p policyData = some q) :
    q = ((parsed load policyData).map fun doc => stored doc p).getD p := by
  have hstate : q = (setPolicy load policyData p).state := by
    unfold apply at h
    split at h
    · cases h
    · rename_i hcall
      rw [hcall]
      exact (Option.some.inj h).symm
  rw [hstate]
  cases hparsed : parsed load policyData with
  | none => exact (ends_setPolicy_none hparsed p).2
  | some doc =>
    obtain ⟨r, hends, _⟩ := ends_setPolicy hparsed p
    exact hends.2

theorem applyAll_eq_some (h : applyAll load p texts = some q) :
    q = (texts.filterMap (parsed load)).foldl (fun p doc => stored doc p) p := by
  induction texts generalizing p with
  | nil => exact (Option.some.inj h).symm
  | cons policyData texts ih =>
    rw [applyAll, List.foldlM_cons, Option.bind_eq_bind, Option.bind_eq_some_iff] at h
    obtain ⟨p', hstep, hrest⟩ := h
    rw [ih hrest, apply_eq_some hstep]
    cases hparsed : parsed load policyData with
    | none => simp [hparsed]
    | some doc => simp [hparsed]

/-- What the last document that reached it says, else what was there. -/
def lastReached {α : Type} (reached : Node → Option α) (docs : List Node) (before : α) : α :=
  ((docs.filterMap reached).getLast?).getD before

theorem lastReached_cons {α : Type} (reached : Node → Option α) (doc : Node) (docs : List Node)
    (before : α) : lastReached reached (doc :: docs) before =
      lastReached reached docs ((reached doc).getD before) := by
  unfold lastReached
  rw [List.filterMap_cons]
  cases hreached : reached doc with
  | none => rfl
  | some a =>
    rw [List.getLast?_cons]
    cases (docs.filterMap reached).getLast? <;> rfl

/-- The documents of `docs` stored one after another. -/
theorem foldl_stored (docs : List Node) (p : Policy) :
    docs.foldl (fun p doc => stored doc p) p = { p with
      m_name := lastReached reachedName docs p.m_name
      m_namespace := lastReached reachedNamespace docs p.m_namespace
      m_action := lastReached (fun doc => (reachedAction doc).map actionOf) docs p.m_action } := by
  induction docs generalizing p with
  | nil => rfl
  | cons doc docs ih =>
    rw [List.foldl_cons, ih]
    simp only [lastReached_cons, stored]

theorem lastReached_of_last {α : Type} {reached : Node → Option α} {before after : List Node}
    {doc : Node} {a held : α} (hdoc : reached doc = some a)
    (hafter : ∀ d ∈ after, reached d = none) :
    lastReached reached (before ++ doc :: after) held = a := by
  have hnil : after.filterMap reached = [] := List.filterMap_eq_nil_iff.mpr hafter
  simp [lastReached, List.filterMap_append, hdoc, hnil]

theorem reachedName_of_namespace {doc : Node} {namespaceName : Str}
    (h : reachedNamespace doc = some namespaceName) : ∃ name, reachedName doc = some name := by
  unfold reachedNamespace at h
  unfold reachedName
  split at h
  · obtain ⟨name, hname, _⟩ := Option.bind_eq_some_iff.mp h
    exact ⟨name, by rw [if_pos (by assumption), hname]⟩
  · cases h

theorem reachedNamespace_of_action {doc : Node} {action : Str}
    (h : reachedAction doc = some action) :
    ∃ namespaceName, reachedNamespace doc = some namespaceName := by
  obtain ⟨namespaceName, hnamespace, _⟩ := Option.bind_eq_some_iff.mp h
  exact ⟨namespaceName, hnamespace⟩

/-- What reaches no name reaches nothing behind it. -/
theorem reaches_nothing {doc : Node} (h : reachedName doc = none) :
    reachedNamespace doc = none ∧ reachedAction doc = none := by
  have hnamespace : reachedNamespace doc = none := by
    by_contra hne
    obtain ⟨_, hsome⟩ := Option.ne_none_iff_exists'.mp hne
    obtain ⟨_, hname⟩ := reachedName_of_namespace hsome
    rw [h] at hname
    cases hname
  exact ⟨hnamespace, by rw [reachedAction, hnamespace]; rfl⟩

/-- Each field is what the last document that reached it says, accepted or not; rules and selector
never change. If the last document that reached a name reached an action, all three are its own. -/
theorem fields_of_history (h : applyAll load p texts = some q) :
    q = { p with
      m_name := lastReached reachedName (texts.filterMap (parsed load)) p.m_name
      m_namespace := lastReached reachedNamespace (texts.filterMap (parsed load)) p.m_namespace
      m_action := lastReached (fun doc => (reachedAction doc).map actionOf)
        (texts.filterMap (parsed load)) p.m_action } ∧
    ∀ before doc after action, texts.filterMap (parsed load) = before ++ doc :: after →
      (∀ d ∈ after, reachedName d = none) → reachedAction doc = some action →
        reachedName doc = some q.m_name ∧ reachedNamespace doc = some q.m_namespace ∧
          q.m_action = actionOf action := by
  have hq := (applyAll_eq_some h).trans (foldl_stored _ p)
  refine ⟨hq, ?_⟩
  intro before doc after action hdocs hafter hreached
  obtain ⟨namespaceName, hnamespace⟩ := reachedNamespace_of_action hreached
  obtain ⟨name, hname⟩ := reachedName_of_namespace hnamespace
  have hafterNamespace := fun d hd => (reaches_nothing (hafter d hd)).1
  have hafterAction : ∀ d ∈ after, (reachedAction d).map actionOf = none := by
    intro d hd
    rw [(reaches_nothing (hafter d hd)).2, Option.map_none]
  have haction : (reachedAction doc).map actionOf = some (actionOf action) := by
    rw [hreached, Option.map_some]
  rw [hdocs, lastReached_of_last hname hafter, lastReached_of_last hnamespace hafterNamespace,
    lastReached_of_last haction hafterAction] at hq
  rw [hq]
  exact ⟨hname, hnamespace, rfl⟩

end History

/-- Another name in the same namespace, and no `spec`. -/
def renamed : Node :=
  .map [(.scalar API_VERSION_KEY, .scalar API_VERSION_VALUE),
    (.scalar KIND_KEY, .scalar KIND_VALUE),
    (.scalar METADATA_KEY, .map [(.scalar NAME_KEY, .scalar (text "db")),
      (.scalar NAMESPACE_KEY, .scalar (text "shop"))])]

def loadTwo (policyData : Str) : Option Node :=
  if policyData = text "first" then some allowing else some renamed

/-- The refused document gives the accepted one its name: together they allow `db`. -/
theorem fields_of_history_mixed : ∃ q, applyAll loadTwo {} [text "first", text "second"] = some q ∧
    q.m_name = text "db" ∧ q.m_action = .allow := by
  have hparsed : [text "first", text "second"].filterMap (parsed loadTwo) =
      [allowing, renamed] := rfl
  have hcalls : applyAll loadTwo {} [text "first", text "second"] =
      some { m_name := text "db", m_namespace := text "shop", m_action := .allow } := rfl
  have hfields := (fields_of_history hcalls).1
  rw [hparsed] at hfields
  exact ⟨_, hcalls.trans (congrArg some hfields), rfl, rfl⟩

end SGXess.Policy
