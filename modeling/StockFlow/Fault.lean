import StockFlow.Formula.Reference
import StockFlow.Text.Quoted
import StockFlow.Validation.Violation
import StockFlow.Value.Order

/-!
# Faults

Every way in which an operation of the engine can fail, as a cause with what is
known about it.  The wording is in {lit}`Fault.message`; {lit}`Fault.kind` sorts
the causes into the families that callers tell apart, and {lit}`FaultKind.word`
is the name of a family.
-/

namespace StockFlow

/-- What an operation expects in the place of an argument. -/
inductive Role where
  | level
  | rate
  | sourceSink
  | constant
  /-- A node with a formula. -/
  | formulaOwner
  /-- Any node. -/
  | node
  | modelName
  | model
  deriving DecidableEq, Repr

namespace Role

/-- The parameter that has the role. -/
def parameter : Role → String
  | .level => "level_node"
  | .rate => "rate_node"
  | .sourceSink => "source_sink_node"
  | .constant => "constant_node"
  | .formulaOwner => "node"
  | .node => "node"
  | .modelName => "model_name"
  | .model => "model"

/-- What fills the role. -/
def description : Role → String
  | .level => "a level node"
  | .rate => "a rate node"
  | .sourceSink => "a source/sink node"
  | .constant => "a constant node"
  | .formulaOwner => "a rate node or an auxiliary node"
  | .node => "a node"
  | .modelName => "a name"
  | .model => "a model"

/-- Whether a node of a kind fills the role. -/
def accepts : Role → NodeKind → Bool
  | .level, kind => kind == .level
  | .rate, kind => kind == .rate
  | .sourceSink, kind => kind == .sourceSink
  | .constant, kind => kind == .constant
  | .formulaOwner, kind => kind.hasFormula
  | .node, _ => true
  | _, _ => false

end Role

/-- Families of faults. -/
inductive FaultKind where
  | badValue
  | badType
  | badState
  | missingAttribute
  | overflow
  | exhausted
  | outOfRoom
  | valueOutOfRange
  | modelNotChangeable
  | modelStillChangeable
  | formulaDependency
  | invalidModel
  | noLevel
  | unconnectedRate
  | missingFormula
  | auxiliaryCycle
  | uselessNode
  | formulaSyntax
  | formulaToken
  deriving DecidableEq, Repr

namespace FaultKind

/-- The name of a family. -/
def word : FaultKind → String
  | .badValue => "ValueError"
  | .badType => "TypeError"
  | .badState => "RuntimeError"
  | .missingAttribute => "AttributeError"
  | .overflow => "OverflowError"
  | .exhausted => "RecursionError"
  | .outOfRoom => "MemoryError"
  | .valueOutOfRange => "NodeParameterOutOfRangeException"
  | .modelNotChangeable => "ModelNotChangeableException"
  | .modelStillChangeable => "ModelStillChangeableException"
  | .formulaDependency => "FormulaDependencyException"
  | .invalidModel => "ModelValidationException"
  | .noLevel => "NoLevelNodeException"
  | .unconnectedRate => "RateNodeFlowException"
  | .missingFormula => "NoFormulaException"
  | .auxiliaryCycle => "AuxiliaryNodesCycleDependencyException"
  | .uselessNode => "UselessNodeException"
  | .formulaSyntax => "ParseException"
  | .formulaToken => "FormulaTokenError"

/-- The step that makes faults of a family, as messages about its arguments name it. -/
def initializer (kind : FaultKind) : String :=
  let owner := match kind with
    | .noLevel => FaultKind.invalidModel
    | .auxiliaryCycle => FaultKind.invalidModel
    | _ => kind
  owner.word ++ ".__init__()"

/-- The wider families that contain a family, the closest first. -/
def wider : FaultKind → List String
  | .valueOutOfRange => ["ValueError", "Exception"]
  | .modelNotChangeable => ["RuntimeError", "Exception"]
  | .modelStillChangeable => ["RuntimeError", "Exception"]
  | .noLevel => ["ModelValidationException", "Exception"]
  | .unconnectedRate => ["ModelValidationException", "Exception"]
  | .missingFormula => ["ModelValidationException", "Exception"]
  | .auxiliaryCycle => ["ModelValidationException", "Exception"]
  | .uselessNode => ["ModelValidationException", "Exception"]
  | .formulaToken => ["ParseException", "Exception"]
  | .overflow => ["ArithmeticError", "Exception"]
  | .exhausted => ["RuntimeError", "Exception"]
  | _ => ["Exception"]

end FaultKind

namespace Violation

/-- The family of a violation. -/
def faultKind : Violation → FaultKind
  | .noLevel => .noLevel
  | .unconnectedRate _ => .unconnectedRate
  | .missingFormula _ => .missingFormula
  | .auxiliaryCycle => .auxiliaryCycle
  | .uselessNode _ => .uselessNode

end Violation

/-- Why settings are refused. -/
inductive SettingProblem where
  | defaultRoundsTooSmall
  | limitBelowDefault
  | intervalTooSmall
  /-- The text of a variable is not a whole number. -/
  | notAnInteger (name text : String)
  /-- There is no setting of the name. -/
  | unknown (name : String)
  /-- The settings under construction are given once more. -/
  | givenTwice
  /-- What holds the settings is no record. -/
  | notARecord (word : String)
  deriving DecidableEq, Repr

/-- The wording of a refusal. -/
def SettingProblem.message : SettingProblem → String
  | .defaultRoundsTooSmall => "'default_rounds' must be at least 1."
  | .limitBelowDefault => "'max_rounds' must not be smaller than 'default_rounds'."
  | .intervalTooSmall => "'progress_interval' must be at least 1."
  | .notAnInteger name text => name ++ " must be an integer, got '" ++ text ++ "'."
  | .unknown name =>
      "EngineConfiguration.__init__() got an unexpected keyword argument '" ++ name ++ "'"
  | .givenTwice => "EngineConfiguration.__init__() got multiple values for argument 'self'"
  | .notARecord word =>
      "sd_config.EngineConfiguration() argument after ** must be a mapping, not " ++ word

/-- Whether a refusal concerns how settings are given and not what they are. -/
def SettingProblem.isMisuse : SettingProblem → Bool
  | .unknown _ => true
  | .givenTwice => true
  | .notARecord _ => true
  | _ => false

/-- Why an operation failed. -/
inductive Fault where
  /-- A node name is absent. -/
  | nameAbsent
  /-- A node name is not text. -/
  | nameNotText
  /-- A node value is absent. -/
  | numberAbsent
  /-- A node value is not a number. -/
  | notANumber
  /-- An integer lies beyond the doubles. -/
  | integerTooLarge
  /-- A node value lies outside its bounds. -/
  | outOfRange (low high : Float)
  /-- Sources and sinks cannot be named. -/
  | noName
  /-- Sources and sinks have no value. -/
  | noValue
  /-- An end of a rate is absent. -/
  | endpointAbsent (side : Side)
  /-- An end of a rate is not an endpoint. -/
  | notAnEndpoint (side : Side)
  /-- An argument is absent. -/
  | argumentAbsent (role : Role)
  /-- An argument does not fill its role. -/
  | wrongArgument (role : Role)
  /-- The model is locked. -/
  | notChangeable
  /-- The model is not locked yet. -/
  | stillChangeable
  /-- Only one end of a flow knows of it. -/
  | inconsistentFlow
  /-- Another node's formula reads the node. -/
  | readByFormula (reader : NodeId)
  /-- The argument is no node at all. -/
  | unknownNodeType (word : String)
  /-- The argument cannot be looked up among nodes. -/
  | notAKey (word : String)
  /-- The argument offers no such operation. -/
  | lacksMember (word member : String)
  /-- The argument has no elements to go through. -/
  | notIterable (word : String)
  /-- Two things of these types have no order. -/
  | noOrder (sign left right : String)
  /-- A text does not write a number. -/
  | notNumeric (shown : String)
  /-- A text does not write a whole number. -/
  | notWhole (shown : String)
  /-- Things of the type stand for no number. -/
  | neverNumeric (word : String)
  /-- Things of the type stand for no whole number. -/
  | neverWhole (word : String)
  /-- An infinite number has no whole part. -/
  | infiniteWhole
  /-- Arguments are missing. -/
  | tooFewArguments (family : FaultKind) (names : List String)
  /-- There are more arguments than can be taken. -/
  | tooManyArguments (family : FaultKind) (least most given : Nat)
  /-- A formula reads an auxiliary that is not among those to be ordered. -/
  | unlistedAuxiliary
  /-- A formula to be evaluated is not there. -/
  | formulaAbsent
  /-- What is set as a formula is none. -/
  | notAFormula
  /-- An operand of an operator is absent. -/
  | operandAbsent
  /-- An operand of an operator is no formula. -/
  | operandNotAFormula
  /-- The structure of the model is not valid. -/
  | invalid (violation : Violation)
  /-- Formula text was refused. -/
  | refused (error : ReadError)
  /-- Formula text is absent. -/
  | textAbsent
  /-- Formula text is not text. -/
  | notText (word : String)
  /-- A table of references is absent. -/
  | tableAbsent
  /-- Nodes of the type have no numbered reference. -/
  | noReference (word : String)
  /-- A node has no number in the tables. -/
  | noNumber (name : String)
  /-- The count of rounds is not an integer. -/
  | roundsNotInteger
  /-- The count of rounds is too small. -/
  | tooFewRounds
  /-- The count of rounds is too large. -/
  | tooManyRounds (limit : Quantity)
  /-- A node has no recorded history. -/
  | notRecorded (shown : String)
  /-- What should be a level is none. -/
  | notALevel
  /-- A level is not part of the execution. -/
  | foreignLevel (shown : String)
  /-- No level has the label. -/
  | unknownLevel (label : String)
  /-- The bounds of a range are not in order. -/
  | boundsOutOfOrder
  /-- A node that no formula defines is given as one with a formula problem. -/
  | notAFormulaOwner
  /-- A node that cannot be useless is given as useless. -/
  | neverUseless
  /-- A setting is not allowed. -/
  | badSetting (problem : SettingProblem)
  deriving DecidableEq

namespace Fault

/-- How much of a text that writes no whole number is quoted. -/
def quotedLength : Nat := 200

/-- The wording of a fault. -/
def message : Fault → String
  | .nameAbsent => "Node name must not be None."
  | .nameNotText => "Node name must be a string."
  | .numberAbsent => "Node value must not be None."
  | .notANumber => "Node value must be a number."
  | .integerTooLarge => "int too large to convert to float"
  | .outOfRange _ _ => "The node's (new) value is out of range."
  | .noName => "Source/sink nodes have no name."
  | .noValue => "Source/sink nodes have no value."
  | .endpointAbsent side => "Flow " ++ side.word ++ " must not be None."
  | .notAnEndpoint side => "Flow " ++ side.word ++ " must be a level node or a source/sink node."
  | .argumentAbsent role => "'" ++ role.parameter ++ "' must not be None."
  | .wrongArgument role => "'" ++ role.parameter ++ "' must be " ++ role.description ++ "."
  | .notChangeable => "The model is not changeable any more."
  | .stillChangeable => "The model is still changeable and cannot be executed."
  | .inconsistentFlow => "Flow to remove not stored consistently."
  | .readByFormula _ => "The node that should be removed is part of another node's formula."
  | .unknownNodeType word => "Unknown node type: " ++ word
  | .notAKey word => "unhashable type: '" ++ word ++ "'"
  | .lacksMember word member =>
      "'" ++ word ++ "' object has no attribute '" ++ member ++ "'"
  | .notIterable word => "'" ++ word ++ "' object is not iterable"
  | .noOrder sign left right =>
      "'" ++ sign ++ "' not supported between instances of '" ++ left ++ "' and '" ++ right ++ "'"
  | .notNumeric shown => "could not convert string to float: " ++ shown
  | .notWhole shown =>
      "invalid literal for int() with base 10: " ++ String.ofList (shown.toList.take quotedLength)
  | .neverNumeric word =>
      "float() argument must be a string or a real number, not '" ++ word ++ "'"
  | .neverWhole word =>
      "int() argument must be a string, a bytes-like object or a real number, not '" ++ word ++ "'"
  | .infiniteWhole => "cannot convert float infinity to integer"
  | .tooFewArguments family names =>
      family.initializer ++ " missing " ++ Text.decimal names.length ++
        " required positional argument" ++ (if names.length = 1 then "" else "s") ++ ": " ++
        " and ".intercalate (names.map Text.quoted)
  | .tooManyArguments family least most given =>
      family.initializer ++ " takes " ++
        (if least = most then "" else "from " ++ Text.decimal least ++ " to ") ++
        Text.decimal most ++ " positional argument" ++
        (if least = most ∧ most = 1 then "" else "s") ++ " but " ++ Text.decimal given ++
        " were given"
  | .unlistedAuxiliary => "dictionary changed size during iteration"
  | .formulaAbsent => "'NoneType' object has no attribute 'evaluate'"
  | .notAFormula => "'formula' must be a formula element."
  | .operandAbsent => "Operands of a formula operator must not be None."
  | .operandNotAFormula => "Operands of a formula operator must be formula elements."
  | .invalid v => v.message
  | .refused e => e.message
  | .textAbsent => "'formula' must not be None."
  | .notText word => "expected string or bytes-like object, got '" ++ word ++ "'"
  | .tableAbsent => "Node id tables must not be None."
  | .noReference word => "Nodes of type " ++ word ++ " have no short representation."
  | .noNumber name => "No id was assigned to node '" ++ name ++ "'."
  | .roundsNotInteger => "'rounds' must be an integer."
  | .tooFewRounds => "'rounds' must be at least 1."
  | .tooManyRounds limit => "'rounds' must not exceed " ++ limit.value.display ++ "."
  | .notRecorded shown => "Node " ++ shown ++ " is not recorded by this execution."
  | .notALevel => "'level_node' must be a level node."
  | .foreignLevel shown => "Level node " ++ shown ++ " is not part of this execution."
  | .unknownLevel label => "Unknown level '" ++ label ++ "'."
  | .boundsOutOfOrder => "'min_value' must be smaller than 'max_value'."
  | .notAFormulaOwner => "'node' must be a rate node or an auxiliary node."
  | .neverUseless => "'node' must be a constant, an auxiliary or a source/sink node."
  | .badSetting problem => problem.message

/-- The family of a fault. -/
def kind : Fault → FaultKind
  | .nameAbsent => .badValue
  | .nameNotText => .badType
  | .numberAbsent => .badValue
  | .notANumber => .badType
  | .integerTooLarge => .overflow
  | .outOfRange _ _ => .valueOutOfRange
  | .noName => .badType
  | .noValue => .badType
  | .endpointAbsent _ => .badValue
  | .notAnEndpoint _ => .badType
  | .argumentAbsent _ => .badValue
  | .wrongArgument _ => .badType
  | .notChangeable => .modelNotChangeable
  | .stillChangeable => .modelStillChangeable
  | .inconsistentFlow => .badState
  | .readByFormula _ => .formulaDependency
  | .unknownNodeType _ => .badType
  | .notAKey _ => .badType
  | .lacksMember _ _ => .missingAttribute
  | .notIterable _ => .badType
  | .noOrder _ _ _ => .badType
  | .notNumeric _ => .badValue
  | .notWhole _ => .badValue
  | .neverNumeric _ => .badType
  | .neverWhole _ => .badType
  | .infiniteWhole => .overflow
  | .tooFewArguments _ _ => .badType
  | .tooManyArguments _ _ _ _ => .badType
  | .unlistedAuxiliary => .badState
  | .formulaAbsent => .missingAttribute
  | .notAFormula => .badType
  | .operandAbsent => .badValue
  | .operandNotAFormula => .badType
  | .invalid v => v.faultKind
  | .refused .tooDeepToQuote => .exhausted
  | .refused .outOfRoom => .outOfRoom
  | .refused e =>
      if e.isLengthError then .badValue else if e.isTokenError then .formulaToken
      else .formulaSyntax
  | .textAbsent => .badValue
  | .notText _ => .badType
  | .tableAbsent => .badValue
  | .noReference _ => .badValue
  | .noNumber _ => .badValue
  | .roundsNotInteger => .badType
  | .tooFewRounds => .badValue
  | .tooManyRounds _ => .badValue
  | .notRecorded _ => .badValue
  | .notALevel => .badType
  | .foreignLevel _ => .badValue
  | .unknownLevel _ => .badValue
  | .boundsOutOfOrder => .badValue
  | .notAFormulaOwner => .badType
  | .neverUseless => .badType
  | .badSetting problem => if problem.isMisuse then .badType else .badValue

/-- The bounds that a fault tells. -/
def range? : Fault → Option (Float × Float)
  | .outOfRange low high => some (low, high)
  | _ => none

/-- The node a fault is about, if it carries one. -/
def node? : Fault → Option NodeId
  | .readByFormula n => some n
  | .invalid v => v.node?
  | _ => none

end Fault
end StockFlow
