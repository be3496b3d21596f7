import SGXessControll.YAML

/-!
# Parsing a policy

`Policy` with its rules and its selector. The Controller and the Deployer hold the same files.
Of a policy only the header is kept: the rules are walked and printed, and the selector is
not read.
-/

namespace SGXess

set_option autoImplicit false

open Attempts (Attempt)
open YAML (Node Handle NodeType Failure)

inductive Source where
  | unknownSource
  | principals
  | notPrincipals
  | requestPrincipals
  | requestNotPrincipals
  | namespaces
  | notNamespaces
  | ipBlocks
  | notIpBlocks
  | remoteIpBlocks
  | remoteNotIpBlocks
  deriving DecidableEq, Repr

inductive Operation where
  | unknownOperation
  | hosts
  | notHosts
  | ports
  | notPorts
  | methods
  | notMethods
  | paths
  | notPaths
  deriving DecidableEq, Repr

structure PolicyRules where
  m_source : List (Source × List Str) := []
  m_operation : List (Operation × List Str) := []
  deriving DecidableEq, Repr

namespace PolicyRules

/-- `source.begin()->second.begin()->second.begin()->as<std::string>()`, which is printed. -/
def printSource (source : Handle) : Attempt Failure PolicyRules Unit := do
  let origin ← source.front
  let field ← origin.second.front
  let entry ← field.second.front
  let _ ← entry.node.asString

def printFrom (rule : Handle) : Attempt Failure PolicyRules Unit := do
  let value ← rule.get (text "from")
  let _ ← value.type
  let sources ← rule.get (text "from")
  forM sources.items fun itSource => printSource itSource.node

def setFrom (rules : Handle) : Attempt Failure PolicyRules Bool := do
  let _ ← rules.get (text "from")
  if (← rules.type) ≠ NodeType.sequence then
    return false
  forM rules.items fun itRule => printFrom itRule.node
  return false

def setTo (rules : Handle) : Attempt Failure PolicyRules Bool := do
  let _ ← rules.get (text "to")
  return false

/-- The first rule is taken before the `try`. -/
def setRules (rules : Handle) : Attempt Failure PolicyRules Bool := do
  let itRule ← rules.front
  let rule := itRule.node
  Attempt.catching (fun e => e = .parserException)
    (do
      if (← setFrom rule) = false then
        return false
      let _ ← setTo rule
      return true)
    (return false)

end PolicyRules

structure PolicySelector where
  m_matchLabels : List (Str × Str) := []
  deriving DecidableEq, Repr

namespace PolicySelector

/-- The body is empty. -/
def setRules (_selector : Handle) : Attempt Failure PolicySelector Unit := return ()

end PolicySelector

/-- `Policy::E_Action`. -/
inductive Action where
  | unknown
  | allow
  | deny
  | audit
  deriving DecidableEq, Repr

structure Policy where
  m_name : Str := []
  m_namespace : Str := []
  m_action : Action := .unknown
  m_selector : PolicySelector := {}
  m_rules : PolicyRules := {}
  deriving DecidableEq, Repr

namespace Policy

def API_VERSION_KEY : Str := text "apiVersion"
def API_VERSION_VALUE : Str := text "security.istio.io/v1beta1"
def KIND_KEY : Str := text "kind"
def KIND_VALUE : Str := text "AuthorizationPolicy"
def METADATA_KEY : Str := text "metadata"
def NAME_KEY : Str := text "name"
def NAMESPACE_KEY : Str := text "namespace"
def SPEC_KEY : Str := text "spec"
def ACTION_KEY : Str := text "action"
def RULES_KEY : Str := text "rules"
def SELECTOR_KEY : Str := text "selector"

/-- What `setMetadata` tries. -/
def readMetadata (metadata : Handle) : Attempt Failure Policy Bool := do
  let name ← metadata.textAt NAME_KEY
  Attempt.modify fun p => { p with m_name := name }
  let namespaceName ← metadata.textAt NAMESPACE_KEY
  Attempt.modify fun p => { p with m_namespace := namespaceName }
  return true

def setMetadata (metadata : Handle) : Attempt Failure Policy Bool := do
  if 1 ≥ (← metadata.size) then
    return false
  Attempt.catching (fun e => e = .invalidNode) (readMetadata metadata) (return false)

def storeAction (action : Str) : Attempt Failure Policy Bool :=
  if action = text "ALLOW" then do
    Attempt.modify fun p => { p with m_action := .allow }
    return true
  else if action = text "DENY" then do
    Attempt.modify fun p => { p with m_action := .deny }
    return true
  else if action = text "AUDIT" then do
    Attempt.modify fun p => { p with m_action := .audit }
    return true
  else do
    Attempt.modify fun p => { p with m_action := .unknown }
    return false

def setAction (spec : Handle) : Attempt Failure Policy Bool := do
  let action ← Attempt.catching (fun e => e = .invalidNode)
    (do
      let action ← spec.textAt ACTION_KEY
      return some action)
    (return none)
  match action with
  | none => return false
  | some action => storeAction action

/-- `0 != policy[key].as<std::string>().compare(value)`, which prints the value where it
differs; `none` then. -/
def checkField (policy : Node) (key value : Str) : Attempt Failure Policy (Option Node) := do
  let (policy, field) ← policy.subscript key
  if (← (Handle.valid field).asString) = value then
    return some policy
  let (_, field) ← policy.subscript key
  let _ ← (Handle.valid field).asString
  return none

/-- What `setRules` returns is not looked at. -/
def setRulesAndSelector (spec : Handle) : Attempt Failure Policy Unit := do
  let rules ← spec.get RULES_KEY
  let _ ← (PolicyRules.setRules rules).on m_rules fun r p => { p with m_rules := r }
  let selector ← spec.get SELECTOR_KEY
  (PolicySelector.setRules selector).on m_selector fun l p => { p with m_selector := l }

def setSpec (spec : Handle) : Attempt Failure Policy Bool := do
  if (← setAction spec) = false then
    return false
  setRulesAndSelector spec
  return true

def setContents (policy : Node) : Attempt Failure Policy Bool := do
  let (policy, metadata) ← policy.subscript METADATA_KEY
  if (← setMetadata (.valid metadata)) = false then
    return false
  let (_, spec) ← policy.subscript SPEC_KEY
  setSpec (.valid spec)

def setDocument (policy : Node) : Attempt Failure Policy Bool := do
  match ← checkField policy API_VERSION_KEY API_VERSION_VALUE with
  | none => return false
  | some policy =>
    match ← checkField policy KIND_KEY KIND_VALUE with
    | none => return false
    | some policy => setContents policy

/-- The parser reads `policyData.c_str()`, so up to the first zero byte. -/
def setPolicy (load : Str → Option Node) (policyData : Str) : Attempt Failure Policy Bool := do
  let parsed ← Attempt.catching (fun e => e = .parserException)
    (do
      let policy ← YAML.Load load (policyData.takeWhile (· ≠ 0))
      return some policy)
    (return none)
  match parsed with
  | none => return false
  | some policy => setDocument policy

/-- `Policy(std::string &policy)`. Only the other constructor sets `m_action`, so it starts as
what the memory `held`. What `setPolicy` returns is not looked at. -/
def ofText (load : Str → Option Node) (policy : Str) (held : Action) :
    Attempts.Outcome Failure Policy Unit :=
  ((setPolicy load policy).bind fun _ => .ret ()) { m_action := held }

def getAction (p : Policy) : Action := p.m_action

end Policy

end SGXess
