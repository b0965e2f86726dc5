import Rulebook.Comparator
import Rulebook.Connective
import Rulebook.Number.Shortest
import Rulebook.Number.Stepwise
import Rulebook.Text.Place
import Rulebook.Text.Quoted

/-!
# Errors

What can go wrong, by cause, and the wording of every cause in one place. Each error belongs to one
of eight kinds; its message is the label of the kind, a colon, and a detail.
-/

namespace Rulebook

/-- The kinds of errors. -/
inductive ErrorKind
  | invalidExpression
  | unbalancedParentheses
  | malformedExpression
  | unknownOperator
  | malformedCondition
  | ruleNotFound
  | deserialization
  | invalidConfig
deriving DecidableEq, Repr

/-- The words that a message of this kind begins with. -/
def ErrorKind.label : ErrorKind → String
  | .invalidExpression => "Invalid expression"
  | .unbalancedParentheses => "Unbalanced parentheses"
  | .malformedExpression => "Malformed expression"
  | .unknownOperator => "Unknown operator"
  | .malformedCondition => "Malformed condition"
  | .ruleNotFound => "Rule not found"
  | .deserialization => "Deserialization error"
  | .invalidConfig => "Invalid config"

/-- What a reader of JSON found in place of what it wanted. -/
inductive Found
  | null
  | bool (b : Bool)
  | number (v : NumberValue)
  | text (s : String)
  | array
  | object
deriving DecidableEq, Repr

/-- How a message names what was found. -/
def Found.description : Found → String
  | .null => "null"
  | .bool true => "boolean `true`"
  | .bool false => "boolean `false`"
  | .number (.integer i) => "integer `" ++ toString i ++ "`"
  | .number (.real x) => "floating point `" ++ x.display ++ "`"
  | .text s => "string " ++ quoted s
  | .array => "sequence"
  | .object => "map"

/-- What a reader of JSON wanted. -/
inductive Wanted
  | text
  | record
  | node
  | size
  | settings
deriving DecidableEq, Repr

/-- How a message names what was wanted. -/
def Wanted.description : Wanted → String
  | .text => "a string"
  | .record => "a map"
  | .node => "a tree node document"
  | .size => "usize"
  | .settings => "struct EngineConfig"

/-- Why a JSON text was not accepted. -/
inductive ReadFault
  /-- the text is no JSON value -/
  | notJson
  /-- a value of another type was wanted -/
  | wrongType (found : Found) (wanted : Wanted)
  /-- a number that is no size, being negative -/
  | negativeSize (i : Int)
  | missingField (name : String)
  | duplicateField (name : String)
  /-- a node that is neither an operand nor an operator -/
  | unknownNodeType (name : String)
  /-- a record value that is neither a number nor a text -/
  | notScalar
  /-- nesting beyond the reader's limit -/
  | tooDeep
  /-- more items than the settings have fields -/
  | tooManyItems
deriving DecidableEq, Repr

/-- The wording of a fault. -/
def ReadFault.detail : ReadFault → String
  | .notJson => "not a JSON text"
  | .wrongType found wanted =>
    "invalid type: " ++ found.description ++ ", expected " ++ wanted.description
  | .negativeSize i =>
    "invalid value: " ++ (Found.number (.integer i)).description ++ ", expected " ++
      Wanted.size.description
  | .missingField name => "missing field `" ++ name ++ "`"
  | .duplicateField name => "duplicate field `" ++ name ++ "`"
  | .unknownNodeType name => "unknown variant `" ++ name ++ "`, expected `operand` or `operator`"
  | .notScalar => "data did not match any variant of untagged enum Scalar"
  | .tooDeep => "recursion limit exceeded"
  | .tooManyItems => "trailing characters"

/-- Why a value handed over by a host program was not accepted. -/
inductive ValueFault
  | nodeNotDict
  | missingField (name : String)
  | fieldNotText (name : String)
  | unknownNodeType (name : String)
  | emptyDocument
  | dataNotDict
  | keyNotText
  | unsupported (attr : String)
deriving DecidableEq, Repr

/-- The wording of a fault. -/
def ValueFault.detail : ValueFault → String
  | .nodeNotDict => "tree node must be a dict"
  | .missingField name => "missing field: " ++ name
  | .fieldNotText name => "field " ++ name ++ " must be a string"
  | .unknownNodeType name => "unknown node type: " ++ name
  | .emptyDocument => "empty tree document"
  | .dataNotDict => "data must be a dict"
  | .keyNotText => "data keys must be strings"
  | .unsupported attr => "unsupported value for " ++ attr

/-- An error of the rule language, a store or the settings. -/
inductive RuleError
  /-- a rule without a single token -/
  | noTokens (rule : String)
  /-- a `)` that closes nothing -/
  | strayClose
  /-- a `(` that is never closed -/
  | unclosedOpen
  /-- a connective with fewer than two operands -/
  | lacksOperands (c : Connective)
  /-- a parenthesis in a post-order sequence -/
  | strayParenthesis
  /-- a sequence without operands -/
  | emptyExpression
  /-- operands that are left over, by their number -/
  | unjoined (count : Nat)
  /-- an operator node without one of its operands -/
  | missingOperand (word : String)
  | unknownOperator (word : String)
  | malformedCondition (text : String)
  | ruleNotFound (id : String)
  /-- a document or record that cannot be read -/
  | document (fault : ReadFault)
  /-- a document whose nodes are well formed but denote no tree -/
  | documentOf (cause : RuleError)
  /-- a host value that is no tree or record -/
  | hostValue (fault : ValueFault)
  /-- settings that cannot be read -/
  | settings (fault : ReadFault)
  /-- a setting that is well formed but refused -/
  | settingsOf (cause : RuleError)
  | unknownPolicy (name : String)
  | badCapacity (raw : String)
  /-- a log directive that the log filter does not take, for a reason in its own words -/
  | badDirective (directive reason : String)
deriving DecidableEq, Repr

namespace RuleError

/-- The kind that an error belongs to. -/
def kind : RuleError → ErrorKind
  | .noTokens _ => .invalidExpression
  | .strayClose | .unclosedOpen => .unbalancedParentheses
  | .lacksOperands _ | .strayParenthesis | .emptyExpression | .unjoined _ | .missingOperand _ =>
    .malformedExpression
  | .unknownOperator _ => .unknownOperator
  | .malformedCondition _ => .malformedCondition
  | .ruleNotFound _ => .ruleNotFound
  | .document _ | .documentOf _ | .hostValue _ => .deserialization
  | .settings _ | .settingsOf _ | .unknownPolicy _ | .badCapacity _ | .badDirective .. =>
    .invalidConfig

/-- What a message says after the label of its kind. -/
def detail : RuleError → String
  | .noTokens rule => "no tokens found in: " ++ quoted rule
  | .strayClose => "')' without matching '('"
  | .unclosedOpen => "'(' is never closed"
  | .lacksOperands c => c.word ++ " needs two operands"
  | .strayParenthesis => "parenthesis in postfix sequence"
  | .emptyExpression => "empty expression"
  | .unjoined count => toString count ++ " operand(s) not joined by a connective"
  | .missingOperand word => word ++ " node is missing an operand"
  | .unknownOperator word => word
  | .malformedCondition text => text
  | .ruleNotFound id => id
  | .document fault | .settings fault => fault.detail
  | .hostValue fault => fault.detail
  | .documentOf cause => withoutPlace (cause.kind.label ++ ": " ++ cause.detail)
  | .settingsOf cause => withoutOwnPlace (cause.kind.label ++ ": " ++ cause.detail)
  | .unknownPolicy name => "unknown parenthesis policy: " ++ name
  | .badCapacity raw => "cache capacity must be a non-negative integer: " ++ raw
  | .badDirective directive reason =>
    "invalid log directive " ++ quoted directive ++ ": " ++ reason

/-- The whole message of an error. -/
def message (e : RuleError) : String := e.kind.label ++ ": " ++ e.detail

end RuleError

/-- The connective that a word writes, or the error that it writes none. -/
def Connective.parse (w : String) : Except RuleError Connective :=
  match ofWord? w with
  | some c => .ok c
  | none => .error (.unknownOperator w)

/-- The comparison that a word writes, or the error that it writes none. -/
def Comparator.parse (w : String) : Except RuleError Comparator :=
  match ofWord? w with
  | some o => .ok o
  | none => .error (.unknownOperator w)

end Rulebook
