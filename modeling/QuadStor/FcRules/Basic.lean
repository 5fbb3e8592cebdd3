import QuadStor.Lib.System
import Mathlib.Data.List.Basic

/-!
# Fibre Channel access rules

`fc_rule_list` holds one rule for a port name and a disk; port name 0 stands for any port and disk 0 for any disk.
-/

namespace QuadStor.FcRules

open Lib

structure Port where
  word0 : UInt64
  word1 : UInt64
  deriving DecidableEq, Repr

def portEqual (port1 port2 : Port) : Bool :=
  port1.word0 == port2.word0 && port1.word1 == port2.word1

inductive Rule where
  | allow
  | disallow
  deriving DecidableEq, Repr

/-- `struct fc_rule`, and `struct fc_rule_config` with the same fields. -/
structure FcRule where
  wwpn : Port
  targetId : UInt32
  rule : Rule
  deriving DecidableEq, Repr

def FcRule.matches (iter config : FcRule) : Bool :=
  portEqual iter.wwpn config.wwpn && iter.targetId == config.targetId

/-- The loop of `target_add_fc_rule`: the first rule that matches takes over the new decision. -/
def setRule (config : FcRule) : List FcRule → Option (List FcRule)
  | [] => none
  | iter :: rest =>
    if iter.matches config then some ({ iter with rule := config.rule } :: rest)
    else (setRule config rest).map (iter :: ·)

def targetAddFcRule (fcRuleList : List FcRule) (config : FcRule) : List FcRule :=
  match setRule config fcRuleList with
  | some changed => changed
  | none =>
    if config.wwpn.word0 = 0 ∧ config.wwpn.word1 = 0 then config :: fcRuleList
    else fcRuleList ++ [config]

def targetRemoveFcRule (fcRuleList : List FcRule) (config : FcRule) : List FcRule :=
  fcRuleList.eraseP (·.matches config)

def targetClearFcRules (fcRuleList : List FcRule) (targetId : UInt32) : List FcRule :=
  fcRuleList.filter fun iter => 0 < targetId ∧ iter.targetId ≠ targetId

/-- The four variables of `fc_initiator_check`; `none` is their initial value -1. -/
structure Found where
  ruleWwpn : Option Rule
  ruleTarget : Option Rule
  ruleAllWwpn : Option Rule
  ruleAllTarget : Option Rule
  deriving DecidableEq, Repr

def Found.nothing : Found := ⟨none, none, none, none⟩

/-- The rest of the loop body for a rule that does not match both port and disk. -/
def Found.note (wwpn : Port) (targetId : UInt32) (found : Found) (iter : FcRule) : Found :=
  if portEqual iter.wwpn wwpn && iter.targetId == 0 then { found with ruleWwpn := some iter.rule }
  else if iter.targetId = targetId then { found with ruleTarget := some iter.rule }
  else if iter.wwpn.word0 = 0 then { found with ruleAllWwpn := some iter.rule }
  else if iter.targetId = 0 then { found with ruleAllTarget := some iter.rule }
  else found

def Found.decision (found : Found) : Rule :=
  match found.ruleWwpn, found.ruleTarget, found.ruleAllWwpn, found.ruleAllTarget with
  | some rule, _, _, _ => rule
  | none, some rule, _, _ => rule
  | none, none, some rule, _ => rule
  | none, none, none, some rule => rule
  | none, none, none, none => .allow

def scan (wwpn : Port) (targetId : UInt32) : Found → List FcRule → Rule
  | found, [] => found.decision
  | found, iter :: rest =>
    if portEqual iter.wwpn wwpn && iter.targetId == targetId then iter.rule
    else scan wwpn targetId (found.note wwpn targetId iter) rest

def fcInitiatorCheck (fcRuleList : List FcRule) (wwpn : Port) (targetId : UInt32) : Rule :=
  if fcRuleList.isEmpty then .allow else scan wwpn targetId .nothing fcRuleList

inductive Op where
  | add (config : FcRule)
  | remove (config : FcRule)
  | clear (targetId : UInt32)
  deriving DecidableEq, Repr

def Op.run (fcRuleList : List FcRule) : Op → List FcRule
  | .add config => targetAddFcRule fcRuleList config
  | .remove config => targetRemoveFcRule fcRuleList config
  | .clear targetId => targetClearFcRules fcRuleList targetId

def system : System (List FcRule) Op where
  init fcRuleList := fcRuleList = []
  step fcRuleList op changed := changed = op.run fcRuleList

def anyPort : Port := ⟨0, 0⟩

def anyDisk : UInt32 := 0

def FcRule.Applies (rule : FcRule) (wwpn : Port) (targetId : UInt32) : Prop :=
  (rule.wwpn = wwpn ∨ rule.wwpn = anyPort) ∧ (rule.targetId = targetId ∨ rule.targetId = anyDisk)

instance (rule : FcRule) (wwpn : Port) (targetId : UInt32) :
    Decidable (rule.Applies wwpn targetId) := by
  unfold FcRule.Applies; infer_instance

def lookup (fcRuleList : List FcRule) (wwpn : Port) (targetId : UInt32) : Option Rule :=
  (fcRuleList.find? fun iter => iter.wwpn = wwpn ∧ iter.targetId = targetId).map (·.rule)

/-- The most specific of the rules that apply, and `allow` where none does. -/
def mostSpecific (fcRuleList : List FcRule) (wwpn : Port) (targetId : UInt32) : Rule :=
  (lookup fcRuleList wwpn targetId <|> lookup fcRuleList wwpn anyDisk <|> lookup fcRuleList anyPort targetId
    <|> lookup fcRuleList anyPort anyDisk).getD .allow

/-- Rules about others do not change the decision of an initiator, and the most specific of its own rules makes it. -/
structure Isolated (fcRuleList : List FcRule) (wwpn : Port) (targetId : UInt32) : Prop where
  add : ∀ rule : FcRule, ¬ rule.Applies wwpn targetId →
    fcInitiatorCheck (targetAddFcRule fcRuleList rule) wwpn targetId = fcInitiatorCheck fcRuleList wwpn targetId
  remove : ∀ rule : FcRule, ¬ rule.Applies wwpn targetId →
    fcInitiatorCheck (targetRemoveFcRule fcRuleList rule) wwpn targetId = fcInitiatorCheck fcRuleList wwpn targetId
  precedence : fcInitiatorCheck fcRuleList wwpn targetId = mostSpecific fcRuleList wwpn targetId

end QuadStor.FcRules
