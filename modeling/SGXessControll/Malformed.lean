import SGXessControll.Policy
import Mathlib.Tactic.SplitIfs

/-!
# Malformed policies

On which documents `setPolicy` returns, without an exception that leaves it and without a
read at the end of an iteration.
-/

namespace SGXess

set_option autoImplicit false

open Attempts Attempt
open YAML YAML.Handle YAML.Node

/-- `n` is a map with text under `key`. -/
def HasText (n : Node) (key : Str) : Prop := ∃ value, n.field key = some (.scalar value)

def TextOrAbsent (n : Node) (key : Str) : Prop :=
  ∀ x, n.field key = some x → ∃ value, x = .scalar value

def NotScalar (n : Node) : Prop := ∀ value, n ≠ .scalar value

theorem notScalar_of_field {n x : Node} {key : Str} (h : n.field key = some x) : NotScalar n := by
  obtain ⟨pairs, rfl⟩ := isMap_of_field h
  intro value hscalar
  cases hscalar

namespace PolicyRules

section Walk

variable {n : Node} {h : Handle} {s s' : PolicyRules}

/-- The value of the first pair of a map. -/
def firstValue (n : Node) : Option Node :=
  match n with
  | .map pairs => (definedPairs pairs).head?.map Prod.snd
  | _ => none

/-- A source that can be printed: a map of a map of a list that starts with text. -/
def PrintableSource (source : Node) : Prop :=
  ∃ origin value rest, firstValue source = some origin ∧
    firstValue origin = some (.sequence (.scalar value :: rest))

/-- What stands under `from`: a list of sources, or nothing to iterate over. -/
def PrintableSources (sources : Node) : Prop :=
  match sources with
  | .sequence list => ∀ source ∈ list, PrintableSource source
  | .map pairs => definedPairs pairs = []
  | _ => True

def PrintableRule (rule : Node) : Prop :=
  ∃ sources, rule.field (text "from") = some sources ∧ PrintableSources sources

/-- The first rule; only a list is walked. -/
def PrintableFirst (rule : Node) : Prop :=
  match rule with
  | .scalar _ => False
  | .sequence list => ∀ item ∈ list, PrintableRule item
  | _ => True

def PrintableRules (rules : Node) : Prop :=
  ∃ first rest, rules = .sequence (first :: rest) ∧ PrintableFirst first

theorem head_second {v w : IteratorValue} (hv : h.items.head? = some v)
    (hw : v.second.items.head? = some w) :
    ∃ n m, h = valid n ∧ firstValue n = some m ∧ v.second = valid m := by
  rcases h with _ | (_ | _ | _ | xs | pairs)
  case valid.sequence =>
    cases xs with
    | nil => cases hv
    | cons x xs => cases hv; cases hw
  case valid.map =>
    simp only [Handle.items, Node.items, List.head?_map, Option.map_eq_some_iff] at hv
    obtain ⟨p, hp, rfl⟩ := hv
    exact ⟨_, p.2, rfl, by rw [firstValue, hp]; rfl, rfl⟩
  all_goals cases hv

theorem head_of_firstValue {m : Node} (hm : firstValue n = some m) :
    ∃ v, (valid n).items.head? = some v ∧ v.second = valid m := by
  cases n with
  | map pairs =>
    simp only [firstValue, Option.map_eq_some_iff] at hm
    obtain ⟨p, hp, rfl⟩ := hm
    exact ⟨⟨.invalid, .valid p.1, .valid p.2⟩, by simp [Handle.items, Node.items, hp], rfl⟩
  | _ => cases hm

/-- The first element of a list; a map gives no node. -/
theorem head_valid_iff {first : Node} :
    (∃ v, h.items.head? = some v ∧ v.node = valid first) ↔
      ∃ rest, h = valid (.sequence (first :: rest)) := by
  constructor
  · intro h
    obtain ⟨v, hv, hnode⟩ := h
    rcases h with _ | (_ | _ | _ | xs | pairs)
    case valid.sequence =>
      cases xs with
      | nil => cases hv
      | cons x xs =>
        cases hv
        cases hnode
        exact ⟨xs, rfl⟩
    case valid.map =>
      simp only [Handle.items, Node.items, List.head?_map, Option.map_eq_some_iff] at hv
      obtain ⟨p, _, rfl⟩ := hv
      cases hnode
    all_goals cases hv
  · intro h
    obtain ⟨rest, rfl⟩ := h
    exact ⟨_, rfl, rfl⟩

theorem settles_printSource : (printSource h).Settles s ↔
    ∃ source, h = valid source ∧ PrintableSource source := by
  simp only [printSource, bind_eq, pure_eq, settles_bind_exists, returns_front, returns_asString,
    settles_ret, and_true]
  constructor
  · intro h
    obtain ⟨u, _, ⟨hu, rfl⟩, v, _, ⟨hv, rfl⟩, w, _, ⟨hw, rfl⟩, value, _, hvalue, rfl⟩ := h
    obtain ⟨source, origin, rfl, horigin, husecond⟩ := head_second hu hv
    rw [husecond] at hv
    obtain ⟨_, list, hsame, hlist, hvsecond⟩ := head_second hv hw
    cases hsame
    rw [hvsecond] at hw
    obtain ⟨rest, hsequence⟩ := head_valid_iff.mp ⟨w, hw, hvalue⟩
    cases hsequence
    exact ⟨source, rfl, origin, value, rest, horigin, hlist⟩
  · intro h
    obtain ⟨source, rfl, origin, value, rest, horigin, hlist⟩ := h
    obtain ⟨u, hu, husecond⟩ := head_of_firstValue horigin
    obtain ⟨v, hv, hvsecond⟩ := head_of_firstValue hlist
    obtain ⟨w, hw, hnode⟩ := head_valid_iff.mpr ⟨rest, hvsecond⟩
    rw [← husecond] at hv
    exact ⟨u, s, ⟨hu, rfl⟩, v, s, ⟨hv, rfl⟩, w, s, ⟨hw, rfl⟩, value, s, hnode, rfl⟩

theorem printableSources_iff {sources : Node} : PrintableSources sources ↔
    ∀ v ∈ sources.items, ∃ source, v.node = valid source ∧ PrintableSource source := by
  cases sources with
  | sequence xs => simp [PrintableSources, Node.items]
  | map pairs =>
    simp only [PrintableSources, Node.items, List.forall_mem_map, reduceCtorEq, false_and,
      exists_false, imp_false]
    exact List.eq_nil_iff_forall_not_mem
  | _ => simp [PrintableSources, Node.items]

theorem settles_printFrom : (printFrom h).Settles s ↔
    ∃ rule, h = valid rule ∧ PrintableRule rule := by
  cases h with
  | invalid => simp [printFrom, Handle.get, settles_bind_exists]
  | valid rule =>
    simp only [printFrom, bind_eq, settles_bind_exists, returns_get, returns_type]
    simp only [settles_forM fun (v : IteratorValue) _ => settles_printSource]
    constructor
    · intro h
      obtain ⟨_, _, ⟨hscalar, rfl, rfl⟩, _, _, ⟨sources, hsources, rfl, rfl⟩, hrest⟩ := h
      obtain ⟨_, _, ⟨_, rfl, rfl⟩, hall⟩ := hrest
      rw [hsources] at hall
      exact ⟨rule, rfl, sources, ofField_eq_valid.mp hsources, printableSources_iff.mpr hall⟩
    · intro h
      obtain ⟨_, heq, sources, hfield, hprintable⟩ := h
      cases heq
      have hsources := ofField_eq_valid.mpr hfield
      have hget : (∀ v, rule ≠ .scalar v) ∧
          valid sources = ofField (rule.field (text "from")) ∧ s = s :=
        ⟨notScalar_of_field hfield, hsources.symm, rfl⟩
      refine ⟨_, _, hget, _, _, ⟨sources, rfl, rfl, rfl⟩, _, _, hget, ?_⟩
      exact printableSources_iff.mp hprintable

theorem settles_setFrom : (setFrom h).Settles s ↔ ∃ rule, h = valid rule ∧ PrintableFirst rule := by
  cases h with
  | invalid => simp [setFrom, Handle.get, settles_bind]
  | valid rule =>
    simp only [setFrom, bind_eq, settles_bind, settles_get, returns_get, settles_type,
      returns_type]
    cases rule with
    | scalar value => simp [PrintableFirst]
    | sequence list =>
      simp [PrintableFirst, settles_bind, Handle.items, Node.items, Node.type,
        settles_forM fun (v : IteratorValue) _ => settles_printFrom]
    | _ => simp [PrintableFirst, Node.type]

theorem returns_setFrom {b : Bool} (hreturns : (setFrom h).Returns s b s') : b = false := by
  simp only [setFrom, bind_eq, returns_bind] at hreturns
  obtain ⟨_, _, _, type, s1, _, hrest⟩ := hreturns
  split at hrest
  · exact (returns_ret.mp hrest).1
  · obtain ⟨_, _, _, hlast⟩ := returns_bind.mp hrest
    exact (returns_ret.mp hlast).1

theorem avoids_printSource : (printSource h).Avoids .parserException := by
  unfold printSource
  refine avoids_bind avoids_front fun origin => ?_
  refine avoids_bind avoids_front fun field => ?_
  refine avoids_bind avoids_front fun entry => ?_
  exact avoids_bind avoids_asString fun _ => avoids_ret

theorem avoids_printFrom : (printFrom h).Avoids .parserException := by
  unfold printFrom
  refine avoids_bind avoids_get fun value => ?_
  refine avoids_bind avoids_type fun _ => ?_
  refine avoids_bind avoids_get fun sources => ?_
  exact avoids_forM fun _ => avoids_printSource

theorem avoids_setFrom : (setFrom h).Avoids .parserException := by
  unfold setFrom
  refine avoids_bind avoids_get fun _ => ?_
  refine avoids_bind avoids_type fun type => ?_
  split
  · exact avoids_ret
  · refine avoids_bind ?_ fun _ => avoids_ret
    exact avoids_forM fun _ => avoids_printFrom

/-- The `catch` never catches anything. -/
theorem settles_setRules : (setRules h).Settles s ↔
    ∃ v, h.items.head? = some v ∧ ∃ rule, v.node = valid rule ∧ PrintableFirst rule := by
  have htry : ∀ rule : Handle, (catching (fun e => e = .parserException)
      ((setFrom rule).bind fun done =>
        if done = false then ret false else (setTo rule).bind fun _ => ret true)
      (ret false)).Settles s ↔ (setFrom rule).Settles s := by
    intro rule
    rw [settles_catching_of_avoids, settles_bind, and_iff_left]
    · intro done s1 hdone
      rw [returns_setFrom hdone, if_pos rfl]
      exact settles_ret
    · intro e he
      rw [of_decide_eq_true he]
      refine avoids_bind avoids_setFrom fun done => ?_
      split
      · exact avoids_ret
      · exact avoids_bind (avoids_bind avoids_get fun _ => avoids_ret) fun _ => avoids_ret
  simp only [setRules, bind_eq, pure_eq, settles_bind_exists, returns_front]
  constructor
  · intro h
    obtain ⟨v, _, ⟨hv, rfl⟩, hrest⟩ := h
    exact ⟨v, hv, settles_setFrom.mp ((htry v.node).mp hrest)⟩
  · intro h
    obtain ⟨v, hv, hfrom⟩ := h
    exact ⟨v, s, ⟨hv, rfl⟩, (htry v.node).mpr (settles_setFrom.mpr hfrom)⟩

theorem settles_setRules_iff : (setRules h).Settles s ↔
    ∃ rules, h = valid rules ∧ PrintableRules rules := by
  rw [settles_setRules]
  constructor
  · intro h
    obtain ⟨v, hv, rule, hnode, hfirst⟩ := h
    obtain ⟨rest, rfl⟩ := head_valid_iff.mp ⟨v, hv, hnode⟩
    exact ⟨_, rfl, rule, rest, rfl, hfirst⟩
  · intro h
    obtain ⟨_, rfl, rule, rest, rfl, hfirst⟩ := h
    exact ⟨_, rfl, rule, rfl, hfirst⟩

end Walk

end PolicyRules

namespace Policy

variable {n doc : Node} {key value : Str} {p p' : Policy}

/-- Name and namespace. -/
def HasMetadata (metadata : Node) : Prop :=
  1 < metadata.size ∧ HasText metadata NAME_KEY ∧ HasText metadata NAMESPACE_KEY

/-- A missing entry is caught, one that is not text is not. -/
def ReadableMetadata (metadata : Node) : Prop :=
  1 < metadata.size → TextOrAbsent metadata NAME_KEY ∧
    (HasText metadata NAME_KEY → TextOrAbsent metadata NAMESPACE_KEY)

def HasAction (spec : Node) : Prop :=
  ∃ action ∈ [text "ALLOW", text "DENY", text "AUDIT"],
    spec.field ACTION_KEY = some (.scalar action)

/-- The rules are walked once the action is known. -/
def ReadableSpec (spec : Node) : Prop :=
  NotScalar spec ∧ TextOrAbsent spec ACTION_KEY ∧
    (HasAction spec →
      ∃ rules, spec.field RULES_KEY = some rules ∧ PolicyRules.PrintableRules rules)

/-- What the document has under `key`; an undefined node where it has nothing. -/
def entry (doc : Node) (key : Str) : Node := (doc.field key).getD .undefined

/-- Each part is read only if those before it are as they must be. -/
def Readable (doc : Node) : Prop :=
  HasText doc API_VERSION_KEY ∧
    (doc.field API_VERSION_KEY = some (.scalar API_VERSION_VALUE) →
      HasText doc KIND_KEY ∧
        (doc.field KIND_KEY = some (.scalar KIND_VALUE) →
          ReadableMetadata (entry doc METADATA_KEY) ∧
            (HasMetadata (entry doc METADATA_KEY) → ReadableSpec (entry doc SPEC_KEY))))

theorem getD_eq_scalar {field : Option Node} :
    field.getD .undefined = .scalar value ↔ field = some (.scalar value) := by
  cases field <;> simp

theorem notScalar_of_size (h : 1 < n.size) : NotScalar n := by
  rintro value rfl
  cases h

theorem textOrAbsent_iff : TextOrAbsent n key ↔ HasText n key ∨ n.field key = none := by
  unfold TextOrAbsent HasText
  cases n.field key <;> simp

theorem returns_readMetadata {b : Bool} : (readMetadata (valid n)).Returns p b p' ↔
    ∃ name namespaceName, n.field NAME_KEY = some (.scalar name) ∧
      n.field NAMESPACE_KEY = some (.scalar namespaceName) ∧ b = true ∧
      p' = { p with m_name := name, m_namespace := namespaceName } := by
  simp only [readMetadata, bind_eq, pure_eq, returns_bind, returns_textAt, returns_modify,
    returns_ret]
  constructor
  · intro h
    obtain ⟨name, _, ⟨hname, rfl⟩, _, _, rfl, hrest⟩ := h
    obtain ⟨namespaceName, _, ⟨hspace, rfl⟩, _, _, rfl, hb, rfl⟩ := hrest
    exact ⟨name, namespaceName, hname, hspace, hb, rfl⟩
  · intro h
    obtain ⟨name, namespaceName, hname, hspace, hb, rfl⟩ := h
    exact ⟨name, _, ⟨hname, rfl⟩, (), _, rfl, namespaceName, _, ⟨hspace, rfl⟩, (), _, rfl, hb, rfl⟩

theorem throws_readMetadata : (∃ p', (readMetadata (valid n)).Throws p .invalidNode p') ↔
    NotScalar n ∧
      (n.field NAME_KEY = none ∨ HasText n NAME_KEY ∧ n.field NAMESPACE_KEY = none) := by
  simp only [readMetadata, bind_eq, pure_eq, throws_bind, throws_textAt_invalidNode,
    returns_textAt, returns_modify, not_throws_modify, not_throws_ret, false_or, and_false,
    exists_false, or_false]
  constructor
  · intro h
    obtain ⟨_, h⟩ := h
    rcases h with ⟨hscalar, hname, rfl⟩ | ⟨name, _, ⟨hname, rfl⟩, _, _, rfl, hrest⟩
    · exact ⟨hscalar, .inl hname⟩
    · exact ⟨hrest.1, .inr ⟨⟨name, hname⟩, hrest.2.1⟩⟩
  · intro h
    rcases h with ⟨hscalar, hname | ⟨⟨name, hname⟩, hspace⟩⟩
    · exact ⟨p, .inl ⟨hscalar, hname, rfl⟩⟩
    · exact ⟨_, .inr ⟨name, p, ⟨hname, rfl⟩, (), _, rfl, hscalar, hspace, rfl⟩⟩

theorem settles_readMetadata :
    (readMetadata (valid n)).Settles p ↔ HasText n NAME_KEY ∧ HasText n NAMESPACE_KEY := by
  simp only [Settles, returns_readMetadata]
  constructor
  · intro h
    obtain ⟨_, _, name, namespaceName, hname, hspace, _, _⟩ := h
    exact ⟨⟨name, hname⟩, ⟨namespaceName, hspace⟩⟩
  · intro h
    obtain ⟨⟨name, hname⟩, ⟨namespaceName, hspace⟩⟩ := h
    exact ⟨true, _, name, namespaceName, hname, hspace, rfl, rfl⟩

theorem setMetadata_eq : setMetadata (valid n) = if 1 ≥ n.size then ret false else
    catching (fun e => e = .invalidNode) (readMetadata (valid n)) (ret false) := rfl

theorem settles_setMetadata : (setMetadata (valid n)).Settles p ↔ ReadableMetadata n := by
  rw [setMetadata_eq, ReadableMetadata]
  split
  · rename_i hsize
    simp [Nat.not_lt.mpr hsize]
  · rename_i hsize
    have hsize : 1 < n.size := Nat.not_le.mp hsize
    have hscalar := notScalar_of_size hsize
    have hcaught : (∃ e p', (readMetadata (valid n)).Throws p e p' ∧
        decide (e = .invalidNode) = true ∧ (ret false : Attempt Failure Policy Bool).Settles p') ↔
          ∃ p', (readMetadata (valid n)).Throws p .invalidNode p' := by
      simp only [decide_eq_true_eq, settles_ret, and_true]
      constructor
      · intro h
        obtain ⟨_, p', hthrows, rfl⟩ := h
        exact ⟨p', hthrows⟩
      · intro h
        obtain ⟨p', hthrows⟩ := h
        exact ⟨_, p', hthrows, rfl⟩
    rw [settles_catching, hcaught, throws_readMetadata, settles_readMetadata, textOrAbsent_iff,
      textOrAbsent_iff]
    have hexcl : n.field NAME_KEY = none → ¬ HasText n NAME_KEY := by
      rintro hnone ⟨name, hname⟩
      rw [hnone] at hname
      cases hname
    grind

theorem returns_setMetadata_true : (setMetadata (valid n)).Returns p true p' ↔
    1 < n.size ∧ ∃ name namespaceName, n.field NAME_KEY = some (.scalar name) ∧
      n.field NAMESPACE_KEY = some (.scalar namespaceName) ∧
      p' = { p with m_name := name, m_namespace := namespaceName } := by
  rw [setMetadata_eq]
  split
  · rename_i hsize
    simp [Nat.not_lt.mpr hsize]
  · rename_i hsize
    simp [returns_catching, returns_readMetadata, Nat.not_le.mp hsize]

/-- The action a text names. -/
def actionOf (action : Str) : Action :=
  if action = text "ALLOW" then .allow
  else if action = text "DENY" then .deny
  else if action = text "AUDIT" then .audit
  else .unknown

theorem actionOf_ne_unknown {action : Str} : actionOf action ≠ .unknown ↔
    action ∈ [text "ALLOW", text "DENY", text "AUDIT"] := by
  unfold actionOf
  split_ifs <;> simp [*]

theorem returns_storeAction {action : Str} {b : Bool} : (storeAction action).Returns p b p' ↔
    b = decide (actionOf action ≠ .unknown) ∧ p' = { p with m_action := actionOf action } := by
  unfold storeAction actionOf
  split_ifs <;> simp [returns_bind, and_comm]

theorem settles_storeAction {action : Str} : (storeAction action).Settles p :=
  ⟨_, _, returns_storeAction.mpr ⟨rfl, rfl⟩⟩

theorem returns_readAction {r : Option Str} : (catching (fun e => e = .invalidNode)
    (((valid n).textAt ACTION_KEY).bind fun action => ret (some action)) (ret none)).Returns
      p r p' ↔ (∃ action, n.field ACTION_KEY = some (.scalar action) ∧ r = some action ∧ p' = p) ∨
        NotScalar n ∧ n.field ACTION_KEY = none ∧ r = none ∧ p' = p := by
  simp only [returns_catching, returns_bind, throws_bind, returns_textAt,
    returns_ret, not_throws_ret, decide_eq_true_eq, NotScalar, and_false, exists_false, or_false]
  constructor
  · intro h
    rcases h with ⟨action, _, ⟨haction, rfl⟩, rfl, rfl⟩ | ⟨e, s1, hthrows, rfl, rfl, rfl⟩
    · exact .inl ⟨action, haction, rfl, rfl⟩
    · obtain ⟨hscalar, haction, rfl⟩ := throws_textAt_invalidNode.mp hthrows
      exact .inr ⟨hscalar, haction, rfl, rfl⟩
  · intro h
    rcases h with ⟨action, haction, rfl, rfl⟩ | ⟨hscalar, haction, rfl, rfl⟩
    · exact .inl ⟨action, _, ⟨haction, rfl⟩, rfl, rfl⟩
    · exact .inr ⟨_, _, throws_textAt_invalidNode.mpr ⟨hscalar, haction, rfl⟩, rfl, rfl, rfl⟩

theorem settles_setAction : (setAction (valid n)).Settles p ↔
    NotScalar n ∧ TextOrAbsent n ACTION_KEY := by
  simp only [setAction, bind_eq, pure_eq, settles_bind]
  have hread : (catching (fun e => e = .invalidNode)
      (((valid n).textAt ACTION_KEY).bind fun action => ret (some action)) (ret none)).Settles p ↔
        NotScalar n ∧ TextOrAbsent n ACTION_KEY := by
    simp only [Settles, returns_readAction, textOrAbsent_iff]
    constructor
    · intro h
      rcases h with ⟨_, _, ⟨action, haction, _⟩ | ⟨hscalar, hnone, _⟩⟩
      · exact ⟨notScalar_of_field haction, .inl ⟨action, haction⟩⟩
      · exact ⟨hscalar, .inr hnone⟩
    · intro h
      rcases h with ⟨hscalar, ⟨action, haction⟩ | hnone⟩
      · exact ⟨_, _, .inl ⟨action, haction, rfl, rfl⟩⟩
      · exact ⟨_, _, .inr ⟨hscalar, hnone, rfl, rfl⟩⟩
  rw [hread, and_iff_left]
  rintro (_ | action) p1 _
  · exact settles_ret
  · exact settles_storeAction

theorem returns_setAction_true : (setAction (valid n)).Returns p true p' ↔
    ∃ action ∈ [text "ALLOW", text "DENY", text "AUDIT"],
      n.field ACTION_KEY = some (.scalar action) ∧ p' = { p with m_action := actionOf action } := by
  simp only [setAction, bind_eq, pure_eq, returns_bind, returns_readAction]
  constructor
  · intro h
    rcases h with ⟨_, _, ⟨action, haction, rfl, rfl⟩ | ⟨_, _, rfl, rfl⟩, hstore⟩
    · obtain ⟨hknown, rfl⟩ := returns_storeAction.mp hstore
      exact ⟨action, actionOf_ne_unknown.mp (of_decide_eq_true hknown.symm), haction, rfl⟩
    · cases (returns_ret.mp hstore).1
  · intro h
    obtain ⟨action, hknown, haction, rfl⟩ := h
    refine ⟨some action, p, .inl ⟨action, haction, rfl, rfl⟩, ?_⟩
    exact returns_storeAction.mpr ⟨(decide_eq_true (actionOf_ne_unknown.mpr hknown)).symm, rfl⟩

theorem settles_checkField (hkey : Named key) :
    (checkField n key value).Settles p ↔ HasText n key := by
  simp only [checkField, bind_eq, pure_eq, settles_bind_exists, returns_subscript hkey,
    returns_asString, valid.injEq]
  constructor
  · intro h
    obtain ⟨_, _, ⟨_, rfl, rfl⟩, found, _, ⟨hfound, rfl⟩, _⟩ := h
    exact ⟨found, getD_eq_scalar.mp hfound⟩
  · intro h
    obtain ⟨found, hfield⟩ := h
    have hscalar := notScalar_of_field hfield
    have hfound := getD_eq_scalar.mpr hfield
    refine ⟨_, _, ⟨hscalar, rfl, rfl⟩, found, p, ⟨hfound, rfl⟩, ?_⟩
    split
    · exact settles_ret
    · rw [withKey_of_field hfield]
      simp only [settles_bind_exists, returns_subscript hkey, returns_asString, valid.injEq]
      exact ⟨_, _, ⟨hscalar, rfl, rfl⟩, found, p, ⟨hfound, rfl⟩, settles_ret⟩

theorem returns_checkField {m : Node} (hkey : Named key) :
    (checkField n key value).Returns p (some m) p' ↔
      n.field key = some (.scalar value) ∧ m = n ∧ p' = p := by
  simp only [checkField, bind_eq, pure_eq, returns_bind, returns_subscript hkey, returns_asString,
    valid.injEq]
  constructor
  · intro h
    obtain ⟨_, _, ⟨hscalar, rfl, rfl⟩, found, _, ⟨hfound, rfl⟩, hrest⟩ := h
    split at hrest
    · rename_i heq
      subst heq
      have hfield := getD_eq_scalar.mp hfound
      rw [withKey_of_field hfield] at hrest
      obtain ⟨hm, rfl⟩ := returns_ret.mp hrest
      exact ⟨hfield, Option.some.inj hm, rfl⟩
    · simp only [returns_bind, returns_ret, reduceCtorEq, false_and, and_false,
        exists_false] at hrest
  · intro h
    obtain ⟨hfield, rfl, rfl⟩ := h
    have hnode := getD_eq_scalar.mpr hfield
    refine ⟨_, _, ⟨notScalar_of_field hfield, rfl, rfl⟩, value, _, ⟨hnode, rfl⟩, ?_⟩
    rw [if_pos rfl, withKey_of_field hfield]
    exact returns_ret.mpr ⟨rfl, rfl⟩

theorem settles_setRulesAndSelector (hscalar : NotScalar n) :
    (setRulesAndSelector (valid n)).Settles p ↔
      ∃ rules, n.field RULES_KEY = some rules ∧ PolicyRules.PrintableRules rules := by
  have hget : ∀ key (p : Policy), ((valid n).get key).Returns p (ofField (n.field key)) p :=
    fun key p => returns_get.mpr ⟨hscalar, rfl, rfl⟩
  simp only [setRulesAndSelector, bind_eq]
  rw [(hget RULES_KEY p).settles_bind, settles_bind, and_iff_left, settles_on,
    PolicyRules.settles_setRules_iff]
  · simp only [ofField_eq_valid]
  · intro _ p1 _
    exact (hget SELECTOR_KEY p1).settles_bind.mpr (settles_on.mpr settles_ret)

theorem settles_setSpec : (setSpec (valid n)).Settles p ↔ ReadableSpec n := by
  simp only [setSpec, bind_eq, pure_eq, settles_bind, settles_setAction, ReadableSpec]
  rw [and_assoc]
  refine and_congr_right fun hscalar => and_congr_right fun _ => ?_
  constructor
  · rintro hrest ⟨action, hknown, haction⟩
    have hset : (setAction (valid n)).Returns p true { p with m_action := actionOf action } :=
      returns_setAction_true.mpr ⟨action, hknown, haction, rfl⟩
    have hlast := hrest true _ hset
    rw [if_neg (by decide), settles_bind] at hlast
    exact (settles_setRulesAndSelector hscalar).mp hlast.1
  · rintro hrules done p1 hset
    cases done with
    | false => exact settles_ret
    | true =>
      obtain ⟨action, hknown, haction, _⟩ := returns_setAction_true.mp hset
      rw [if_neg (by decide), settles_bind]
      refine ⟨?_, fun _ _ _ => settles_ret⟩
      exact (settles_setRulesAndSelector hscalar).mpr (hrules ⟨action, hknown, haction⟩)

theorem notScalar_withKey : NotScalar (n.withKey key) := by
  unfold withKey
  split <;> rintro value ⟨⟩

theorem settles_setContents (hscalar : NotScalar doc) : (setContents doc).Settles p ↔
    ReadableMetadata (entry doc METADATA_KEY) ∧
      (HasMetadata (entry doc METADATA_KEY) → ReadableSpec (entry doc SPEC_KEY)) := by
  have hmetadata : (doc.subscript METADATA_KEY).Returns p
      (doc.withKey METADATA_KEY, entry doc METADATA_KEY) p :=
    (returns_subscript (by decide)).mpr ⟨hscalar, rfl, rfl⟩
  have hspec : ∀ p : Policy, ((doc.withKey METADATA_KEY).subscript SPEC_KEY).Returns p
      ((doc.withKey METADATA_KEY).withKey SPEC_KEY, entry doc SPEC_KEY) p := by
    intro p
    refine (returns_subscript (by decide)).mpr ⟨notScalar_withKey, ?_, rfl⟩
    rw [field_withKey (by decide) (by decide), entry]
  simp only [setContents, bind_eq, pure_eq]
  rw [hmetadata.settles_bind, settles_bind, settles_setMetadata]
  refine and_congr_right fun _ => ?_
  constructor
  · intro hrest h
    obtain ⟨hsize, ⟨name, hname⟩, namespaceName, hnamespace⟩ := h
    have hset := (returns_setMetadata_true (p := p)).mpr
      ⟨hsize, name, namespaceName, hname, hnamespace, rfl⟩
    have hlast := hrest true _ hset
    rw [if_neg (by decide), (hspec _).settles_bind] at hlast
    exact settles_setSpec.mp hlast
  · intro hrest done p1 hset
    cases done with
    | false => exact settles_ret
    | true =>
      obtain ⟨hsize, name, namespaceName, hname, hnamespace, _⟩ := returns_setMetadata_true.mp hset
      rw [if_neg (by decide), (hspec p1).settles_bind]
      exact settles_setSpec.mpr (hrest ⟨hsize, ⟨name, hname⟩, namespaceName, hnamespace⟩)

theorem settles_checked {rest : Node → Attempt Failure Policy Bool} (hkey : Named key) :
    ((checkField n key value).bind fun checked => match checked with
      | none => ret false
      | some policy => rest policy).Settles p ↔
        HasText n key ∧ (n.field key = some (.scalar value) → (rest n).Settles p) := by
  rw [settles_bind, settles_checkField hkey]
  refine and_congr_right fun _ => ?_
  constructor
  · intro hrest hfield
    exact hrest (some n) p ((returns_checkField hkey).mpr ⟨hfield, rfl, rfl⟩)
  · rintro hrest (_ | m) p1 hchecked
    · exact settles_ret
    · obtain ⟨hfield, rfl, rfl⟩ := (returns_checkField hkey).mp hchecked
      exact hrest hfield

theorem settles_setDocument : (setDocument doc).Settles p ↔ Readable doc := by
  refine (settles_checked (n := doc) (by decide)).trans ?_
  refine and_congr_right fun _ => imp_congr_right fun hversion => ?_
  refine (settles_checked (n := doc) (by decide)).trans ?_
  refine and_congr_right fun _ => imp_congr_right fun _ => ?_
  exact settles_setContents (notScalar_of_field hversion)

/-- `setPolicy` returns for the documents the parser refuses and for the readable ones. -/
theorem setPolicy_settles_iff (load : Str → Option Node) (policyData : Str) (p : Policy) :
    (setPolicy load policyData).Settles p ↔
      ∀ doc, load (policyData.takeWhile (· ≠ 0)) = some doc → Readable doc := by
  simp only [setPolicy, bind_eq, pure_eq, YAML.Load]
  cases load (policyData.takeWhile (· ≠ 0)) with
  | none =>
    simp only [reduceCtorEq, false_imp_iff, implies_true, iff_true]
    refine ⟨false, p, returns_bind.mpr ⟨none, p, ?_, returns_ret.mpr ⟨rfl, rfl⟩⟩⟩
    refine returns_catching.mpr (.inr ⟨.parserException, p, ?_, rfl, returns_ret.mpr ⟨rfl, rfl⟩⟩)
    exact throws_bind.mpr (.inl (throws_throw.mpr ⟨rfl, rfl⟩))
  | some doc =>
    simp only [Option.some.injEq, forall_eq']
    exact settles_setDocument

/-- The document `kind: AuthorizationPolicy`. -/
def versionless : Node := .map [(.scalar KIND_KEY, .scalar KIND_VALUE)]

/-- Without a version the conversion throws, and nothing catches it. -/
theorem missing_version_escapes : ¬ ∀ load policyData p, (setPolicy load policyData).Settles p := by
  intro hall
  obtain ⟨b, p', hreturns⟩ := hall (fun _ => some versionless) (text "kind: AuthorizationPolicy") {}
  have hthrown : (setPolicy (fun _ => some versionless)
      (text "kind: AuthorizationPolicy") {}).result = .error .typedBadConversion := rfl
  rw [hreturns] at hthrown
  cases hthrown

end Policy

end SGXess
