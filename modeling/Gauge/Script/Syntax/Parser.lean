import Gauge.Script.Arithmetic
import Gauge.Script.Syntax.Scope
import Gauge.Script.Token.Lexer

/-!
Reading the syntax of a script from its tokens. Names are resolved on the way, so an undeclared
label or an assignment to a constant is found here. Every function takes `fuel`, one unit for each
call; `readFunction` gives more of it than a text can use up.
-/

namespace Gauge.Script.Parser

structure State where
  tokens : Array Token
  problem : Option Lexer.Problem
  pos : Nat
  /-- The token after the current one has been looked at. -/
  peeked : Bool
  /-- The line of the token read last. -/
  lastLine : Nat
  depth : Nat
  /-- The function being read, and those around it. -/
  scope : Scope
  outer : List Scope

abbrev Parse := EStateM ReadError State

/-- How deep statements and expressions may nest, together with the calls that led here. -/
def maxDepth : Nat := 200

def current (s : State) : Token := s.tokens.getD s.pos ⟨.endOfText, s.lastLine, ByteArray.empty⟩

def line (s : State) : Nat :=
  if s.peeked then (s.tokens.getD (s.pos + 1) (current s)).line else (current s).line

def getLine : Parse Nat := return line (← get)
def getLastLine : Parse Nat := return (← get).lastLine

/-- Fails with a message that names no token. -/
def refuse {α : Type} (message : ByteArray) : Parse α := do
  throw (.at (← getLine) message)

/-- Fails with a message that names the current token. -/
def failNear {α : Type} (message : ByteArray) : Parse α := do
  let s ← get
  throw (.at (line s) (message ++ (current s).near))

def failText {α : Type} (message : String) : Parse α := failNear message.toUTF8

def outOfFuel {α : Type} : Parse α := throw .tooDeep

def lexerError (p : Lexer.Problem) : ReadError :=
  .at p.line (p.message.toUTF8 ++ " near ".toUTF8 ++ p.near)

def advance : Parse Unit := do
  let s ← get
  let last := line s
  let atEnd := match (current s).kind with
    | .endOfText => true
    | _ => false
  let pos := if atEnd then s.pos else s.pos + 1
  match s.problem with
  | some p => if pos ≥ s.tokens.size then throw (lexerError p)
  | none => pure ()
  set { s with pos := pos, peeked := false, lastLine := last }

/-- Looks at the token after the current one. -/
def peek : Parse Token := do
  let s ← get
  match s.problem with
  | some p => if s.pos + 1 ≥ s.tokens.size then throw (lexerError p)
  | none => pure ()
  set { s with peeked := true }
  return s.tokens.getD (s.pos + 1) (current s)

def isMark (t : Token) (m : Mark) : Bool :=
  match t.kind with
  | .mark k => k == m
  | _ => false

def atMark (m : Mark) : Parse Bool := return isMark (current (← get)) m
def atChar (c : Char) : Parse Bool := atMark (.ofChar c)

def testNext (m : Mark) : Parse Bool := do
  if ← atMark m then advance; return true
  else return false

def expect (m : Mark) : Parse Unit := do
  if !(← testNext m) then failText (m.shown ++ " expected")

def expectChar (c : Char) : Parse Unit := expect (.ofChar c)

/-- The mark that closes what another one opened on a line. -/
def expectMatch (what opener : Mark) (openLine : Nat) : Parse Unit := do
  if !(← testNext what) then
    if (← getLine) == openLine then failText (what.shown ++ " expected")
    else
      failText (what.shown ++ " expected (to close " ++ opener.shown ++ " at line " ++
        toString openLine ++ ")")

def expectName : Parse ByteArray := do
  match (current (← get)).kind with
  | .name s => advance; return s
  | _ => failText "<name> expected"

def getScope : Parse Scope := return (← get).scope
def setScope (scope : Scope) : Parse Unit := modify fun s => { s with scope := scope }
def modifyScope (f : Scope → Scope) : Parse Unit := modify fun s => { s with scope := f s.scope }

/-- Runs a part one level deeper. -/
def nested {α : Type} (part : Parse α) : Parse α := do
  let s ← get
  if s.depth + 1 ≥ maxDepth then throw .tooDeep
  set { s with depth := s.depth + 1 }
  let r ← part
  modify fun s => { s with depth := s.depth - 1 }
  return r

/-- Makes room for intermediate results so that `free` slots are in use. -/
def useSlots (free : Nat) : Parse Unit := do
  let scope ← getScope
  if free > scope.stack then
    if free ≥ Scope.maxSlots then failText "function or expression needs too many registers"
    setScope { scope with free := free, stack := free }
  else setScope { scope with free := free }

def isHeld : Expr → Bool
  | .literal _ => true
  | .variable (.local _) _ => true
  | _ => false

/-- Where the value of `e` is needed while more is read, it takes a slot unless it already has one. -/
def holdValue (base : Nat) (e : Expr) : Parse Unit :=
  useSlots (if isHeld e then base else base + 1)

def declareLocal (name : ByteArray) : Parse Nat := do
  let scope ← getScope
  if scope.declared + 1 > Scope.maxLocals then
    failText (scope.limitMessage "local variables" Scope.maxLocals)
  let (scope, id) := scope.declare name .regular
  setScope scope
  return id

def activateLocals (ids : List Nat) : Parse Unit := do
  modifyScope fun s => ids.foldl Scope.activate s
  useSlots (max (← getScope).slots (← getScope).free)

/-- Sets the line of an access that is carried out now. -/
def settle (line : Nat) : Expr → Expr
  | .index o k _ => .index o k line
  | e => e

def settleHere (e : Expr) : Parse Expr := return settle (← getLastLine) e

def resolveName (name : ByteArray) : Parse Scope.Found := do
  let s ← get
  match Scope.resolve name (s.scope :: s.outer) with
  | .error full => failText (full.limitMessage "upvalues" Scope.maxCaptures)
  | .ok (found, scope :: outer) =>
    set { s with scope := scope, outer := outer }
    return found
  | .ok (found, []) => return found

def environmentName : ByteArray := "_ENV".toUTF8

/-- What a name stands for: a variable, a known literal, or a field of the environment. -/
def variableNamed (name : ByteArray) : Parse Expr := do
  match ← resolveName name with
  | .variable x _ => return .variable x name
  | .literal _ l => return .literal l
  | .global =>
    let env ← do
      match ← resolveName environmentName with
      | .variable x _ => pure (Expr.variable x environmentName)
      | .literal _ l => pure (Expr.literal l)
      | .global => pure (Expr.literal .nil)
    return .index env (.literal (.string name)) (← getLastLine)

/-- Refuses an assignment to a constant. -/
def checkAssignable (name : ByteArray) : Parse Unit := do
  let mode ← do
    match ← resolveName name with
    | .variable _ mode => pure mode
    | .literal _ _ => pure .constant
    | .global => pure .regular
  if mode != .regular then
    refuse ("attempt to assign to const variable '".toUTF8 ++ name ++ "'".toUTF8)

/-! Folding of operations on literals. -/

def numeral? : Expr → Option Numeral
  | .literal (.number n) => some n
  | _ => none

/-- A folded result must be as good as one computed later: no NaN and no zero, whose sign could be
lost. -/
def foldable (n : Numeral) : Bool :=
  match n with
  | .int _ => true
  | .float x => x == x && x != 0

def isZero (n : Numeral) : Bool := n.toFloat == 0

def foldArith? (op : ArithOp) (a b : Numeral) : Option Numeral :=
  let divides := op == .div || op == .idiv || op == .mod
  if divides && isZero b then none
  else
    match Numeral.arith op a b with
    | .ok n => if foldable n then some n else none
    | .error _ => none

def arithmetic (op : ArithOp) (a b : Expr) (line : Nat) : Expr :=
  let folded := do
    let m ← numeral? a
    let n ← numeral? b
    foldArith? op m n
  match folded with
  | some n => .literal (.number n)
  | none => .arith op a b line

def unary (op : UnaryOp) (a : Expr) (line : Nat) : Expr :=
  let folded : Option Numeral :=
    match op, numeral? a with
    | .minus, some n => if foldable n.negate then some n.negate else none
    | .bnot, some n => n.complement?
    | _, _ => none
  match folded with
  | some n => .literal (.number n)
  | none => .unary op a line

def truth? : Expr → Option Bool
  | .literal .nil => some false
  | .literal (.bool b) => some b
  | .literal _ => some true
  | _ => none

def negation (e : Expr) : Expr :=
  match truth? e with
  | some b => .literal (.bool !b)
  | none => .not e

def conjunction (a b : Expr) : Expr :=
  if truth? a == some true then .paren b else .and a b

def disjunction (a b : Expr) : Expr :=
  if truth? a == some false then .paren b else .or a b

/-- A literal needs no parentheses. -/
def parenthesis (e : Expr) : Expr :=
  match e with
  | .literal _ => e
  | e => .paren e

/-- Joining is done from the right, and all at once when the right operand is itself joined. -/
def concatenation (a b : Expr) (line : Nat) : Expr :=
  match b with
  | .concat items line' | .paren (.concat items line') => .concat (.cons a items) line'
  | b => .concat (.cons a (.cons b .nil)) line

/-! Operators and their priorities, left and right. -/

inductive BinaryOp where
  | arith (op : ArithOp)
  | compare (op : CompareOp)
  | concat
  | and
  | or

def binaryOp? (t : Token) : Option (BinaryOp × Nat × Nat) :=
  match t.kind with
  | .mark m =>
    match m with
    | .floorDivide => some (.arith .idiv, 11, 11)
    | .concat => some (.concat, 9, 8)
    | .equal => some (.compare .eq, 3, 3)
    | .notEqual => some (.compare .ne, 3, 3)
    | .lessEqual => some (.compare .le, 3, 3)
    | .greaterEqual => some (.compare .ge, 3, 3)
    | .shiftLeft => some (.arith .shl, 7, 7)
    | .shiftRight => some (.arith .shr, 7, 7)
    | .kAnd => some (.and, 2, 2)
    | .kOr => some (.or, 1, 1)
    | .byte b =>
      match Char.ofNat b.toNat with
      | '+' => some (.arith .add, 10, 10)
      | '-' => some (.arith .sub, 10, 10)
      | '*' => some (.arith .mul, 11, 11)
      | '/' => some (.arith .div, 11, 11)
      | '%' => some (.arith .mod, 11, 11)
      | '^' => some (.arith .pow, 14, 13)
      | '&' => some (.arith .band, 6, 6)
      | '~' => some (.arith .bxor, 5, 5)
      | '|' => some (.arith .bor, 4, 4)
      | '<' => some (.compare .lt, 3, 3)
      | '>' => some (.compare .gt, 3, 3)
      | _ => none
    | _ => none
  | _ => none

def unaryPriority : Nat := 12

inductive PrefixOp where
  | not
  | op (op : UnaryOp)

def prefixOp? (t : Token) : Option PrefixOp :=
  match t.kind with
  | .mark .kNot => some .not
  | .mark (.byte 45) => some (.op .minus)
  | .mark (.byte 126) => some (.op .bnot)
  | .mark (.byte 35) => some (.op .length)
  | _ => none

/-- Whether a token ends a block. -/
def endsBlock (withUntil : Bool) (t : Token) : Bool :=
  match t.kind with
  | .endOfText => true
  | .mark .kElse | .mark .kElseif | .mark .kEnd => true
  | .mark .kUntil => withUntil
  | _ => false

def isVariable : Expr → Bool
  | .variable .. | .index .. => true
  | _ => false

/-- Completes an operation once its right operand is read. -/
def binary (op : BinaryOp) (a b : Expr) (line : Nat) : Parse Expr := do
  let b ← settleHere b
  match op with
  | .arith op => return arithmetic op a b line
  | .compare op => return .compare op a b (← getLastLine)
  | .concat => return concatenation a b line
  | .and => return conjunction a b
  | .or => return disjunction a b

/-! Blocks, labels and jumps. -/

def enterBlock (isLoop : Bool) : Parse Unit := modifyScope (·.enterBlock isLoop)

/-- Sends the jumps that look for this label to it. -/
def placeLabel (name : ByteArray) (line active : Nat) : Parse Nat := do
  let (scope, id) := (← getScope).newLabel active
  let label : Landmark := ⟨name, line, id, active⟩
  match { scope with labels := scope.labels.push label }.solve label with
  | .ok scope => setScope scope; return id
  | .error jump =>
    let entered := (scope.active[jump.active]?.bind (scope.locals[·]?)).map (·.name)
    refuse ("<goto ".toUTF8 ++ jump.name ++ "> at line ".toUTF8 ++ (toString jump.line).toUTF8 ++
      " jumps into the scope of local '".toUTF8 ++ entered.getD ByteArray.empty ++ "'".toUTF8)

def breakName : ByteArray := "break".toUTF8

/-- Leaves a block. That of a loop is followed by the label its breaks jump to. -/
def leaveBlock : Parse Nat := do
  let scope ← getScope
  match scope.blocks with
  | [] => return 0
  | b :: rest =>
    setScope { scope with active := scope.active.extract 0 b.active, slots := b.slots, declared := b.active }
    let id ← if b.isLoop then placeLabel breakName 0 b.active else pure 0
    modifyScope Scope.leaveBlock
    if rest.isEmpty then
      match (← getScope).pending[b.firstJump]? with
      | some jump =>
        if jump.name == breakName then
          refuse ("break outside a loop at line " ++ toString jump.line).toUTF8
        else
          refuse ("no visible label '".toUTF8 ++ jump.name ++
            ("' for <goto> at line " ++ toString jump.line).toUTF8)
      | none => pure ()
    return id

/-- A jump to a label that is still to come. -/
def forwardJump (name : ByteArray) (line : Nat) : Parse Statement := do
  let (scope, id) := (← getScope).newJump 0
  setScope { scope with pending := scope.pending.push ⟨name, line, id, scope.active.size⟩ }
  return .goto id

def findLabel (name : ByteArray) : Parse (Option Landmark) := do
  return (← getScope).labels.find? (·.name == name)

def gotoStatement : Parse Statement := do
  let line ← getLine
  let name ← expectName
  match ← findLabel name with
  | none => forwardJump name line
  | some label =>
    let (scope, id) := (← getScope).newJump label.id
    setScope scope
    return .goto id

def breakStatement : Parse Statement := do
  let line ← getLine
  advance
  forwardJump breakName line

/-- The literal an initial value is known to be, for a constant that is never stored. -/
def constantValue? : Expr → Option Literal
  | .literal l => some l
  | _ => none

def localMode : Parse LocalMode := do
  if !(← testNext (.ofChar '<')) then return .regular
  let name ← expectName
  expectChar '>'
  if name == "const".toUTF8 then return .constant
  else if name == "close".toUTF8 then return .toBeClosed
  else refuse ("unknown attribute '".toUTF8 ++ name.untilNul ++ "'".toUTF8)

/-- The names of a local declaration with what is said about them. -/
def localNames : Nat → Bool → Parse (List (Nat × LocalMode))
  | 0, _ => outOfFuel
  | fuel + 1, closing => do
    let id ← declareLocal (← expectName)
    let mode ← localMode
    modifyScope (·.setMode id mode)
    if mode == .toBeClosed && closing then
      refuse "multiple to-be-closed variables in local list".toUTF8
    if ← testNext (.ofChar ',') then
      return (id, mode) :: (← localNames fuel (closing || mode == .toBeClosed))
    else return [(id, mode)]

/-- Further names of a generic loop. -/
def loopNames : Nat → Parse (List Nat)
  | 0 => outOfFuel
  | fuel + 1 => do
    if ← testNext (.ofChar ',') then
      let id ← declareLocal (← expectName)
      return id :: (← loopNames fuel)
    else return []

def loopStateName : ByteArray := "(for state)".toUTF8

/-- Hidden variables of a loop. -/
def declareHidden : Nat → Parse (List Nat)
  | 0 => return []
  | n + 1 => do
    let id ← declareLocal loopStateName
    return id :: (← declareHidden n)

def openFunction (line : Nat) : Parse Unit :=
  modify fun s => { s with outer := s.scope :: s.outer, scope := Scope.empty line false }

/-- Closes the innermost function and goes on with the one around it. -/
def closeFunction (params : List Nat) (body : StatementList) : Parse Function := do
  let _ ← leaveBlock
  let s ← get
  let scope := s.scope
  let f := Function.mk params scope.isVarargs body (scope.captures.map (·.source))
    (scope.captures.map (·.name)) (scope.locals.map (·.name)) (scope.locals.map (·.isCaptured))
    scope.jumps scope.labelDepths scope.stack scope.lineDefined
  match s.outer with
  | scope :: outer => set { s with scope := scope, outer := outer }
  | [] => pure ()
  return f

/-- Parameter names up to the closing parenthesis. -/
def parameterNames : Nat → Parse (List Nat)
  | 0 => outOfFuel
  | fuel + 1 => do
    match (current (← get)).kind with
    | .name s =>
      advance
      let id ← declareLocal s
      if ← testNext (.ofChar ',') then return id :: (← parameterNames fuel) else return [id]
    | .mark .dots =>
      advance
      modifyScope fun s => { s with isVarargs := true }
      return []
    | _ => failText "<name> or '...' expected"

def skipSemicolons : Nat → Parse Unit
  | 0 => outOfFuel
  | fuel + 1 => do
    if ← testNext (.ofChar ';') then skipSemicolons fuel

/-- Sets the line of the last of some expressions. -/
def settleLast (line : Nat) : ExprList → ExprList
  | .nil => .nil
  | .cons e .nil => .cons (settle line e) .nil
  | .cons e rest => .cons e (settleLast line rest)

def settleLastHere (es : ExprList) : Parse ExprList := return settleLast (← getLastLine) es

def settleAll (line : Nat) : ExprList → ExprList
  | .nil => .nil
  | .cons e rest => .cons (settle line e) (settleAll line rest)

def lastValue : ExprList → Option Expr
  | .nil => none
  | .cons e .nil => some e
  | .cons _ rest => lastValue rest

mutual

def expression : Nat → Parse Expr
  | 0 => outOfFuel
  | fuel + 1 => subexpression fuel 0

/-- An expression whose operators all bind more tightly than `limit`. -/
def subexpression : Nat → Nat → Parse Expr
  | 0, _ => outOfFuel
  | fuel + 1, limit => nested do
    let base := (← getScope).free
    let first ← do
      match prefixOp? (current (← get)) with
      | some op =>
        let line ← getLine
        advance
        let e ← subexpression fuel unaryPriority
        let e ← settleHere e
        match op with
        | .not => pure (negation e)
        | .op op => pure (unary op e line)
      | none => simpleExpression fuel
    operators fuel limit base first

/-- The operators that follow an operand, as long as they bind more tightly than `limit`. -/
def operators : Nat → Nat → Nat → Expr → Parse Expr
  | 0, _, _, _ => outOfFuel
  | fuel + 1, limit, base, a => do
    match binaryOp? (current (← get)) with
    | none => return a
    | some (op, left, right) =>
      if left ≤ limit then return a
      else
        let line ← getLine
        advance
        let a ← settleHere a
        match op with
        | .and | .or => useSlots base
        | .concat => useSlots (base + 1)
        | _ => holdValue base a
        let b ← subexpression fuel right
        let e ← binary op a b line
        useSlots base
        operators fuel limit base e

def simpleExpression : Nat → Parse Expr
  | 0 => outOfFuel
  | fuel + 1 => do
    let literal (l : Literal) : Parse Expr := do
      advance
      return .literal l
    match (current (← get)).kind with
    | .number n => literal (.number n)
    | .string s => literal (.string s)
    | .mark .kNil => literal .nil
    | .mark .kTrue => literal (.bool true)
    | .mark .kFalse => literal (.bool false)
    | .mark .dots =>
      if !(← getScope).isVarargs then failText "cannot use '...' outside a vararg function"
      advance
      return .varargs
    | .mark (.byte 123) => table fuel
    | .mark .kFunction =>
      advance
      let line ← getLine
      return .function (← functionBody fuel false line)
    | _ => suffixedExpression fuel

def primaryExpression : Nat → Parse Expr
  | 0 => outOfFuel
  | fuel + 1 => do
    match (current (← get)).kind with
    | .name s =>
      advance
      variableNamed s
    | .mark (.byte 40) =>
      let line ← getLine
      advance
      let e ← expression fuel
      expectMatch (.ofChar ')') (.ofChar '(') line
      return parenthesis (← settleHere e)
    | _ => failText "unexpected symbol"

def suffixedExpression : Nat → Parse Expr
  | 0 => outOfFuel
  | fuel + 1 => do
    let base := (← getScope).free
    let e ← primaryExpression fuel
    suffixes fuel base e

/-- The fields, indices and calls that follow an expression. -/
def suffixes : Nat → Nat → Expr → Parse Expr
  | 0, _, _ => outOfFuel
  | fuel + 1, base, e => do
    match (current (← get)).kind with
    | .mark (.byte 46) =>
      let object ← settleHere e
      advance
      let name ← expectName
      suffixes fuel base (.index object (.literal (.string name)) (← getLastLine))
    | .mark (.byte 91) =>
      let object ← settleHere e
      holdValue base object
      let key ← bracketKey fuel
      useSlots base
      suffixes fuel base (.index object key (← getLastLine))
    | .mark (.byte 58) =>
      advance
      let name ← expectName
      let object ← settleHere e
      let nameLine ← getLastLine
      useSlots (base + 2)
      let line ← getLine
      let args ← arguments fuel
      useSlots (base + 1)
      suffixes fuel base (.method object name args nameLine line)
    | .mark (.byte 40) | .mark (.byte 123) | .string _ =>
      let f ← settleHere e
      useSlots (base + 1)
      let line ← getLine
      let args ← arguments fuel
      useSlots (base + 1)
      suffixes fuel base (.call f args line)
    | _ => return e

/-- An index in brackets. -/
def bracketKey : Nat → Parse Expr
  | 0 => outOfFuel
  | fuel + 1 => do
    advance
    let key ← expression fuel
    let key ← settleHere key
    expectChar ']'
    return key

def arguments : Nat → Parse ExprList
  | 0 => outOfFuel
  | fuel + 1 => do
    match (current (← get)).kind with
    | .string s =>
      advance
      return .cons (.literal (.string s)) .nil
    | .mark (.byte 123) =>
      return .cons (← table fuel) .nil
    | .mark (.byte 40) =>
      let line ← getLine
      advance
      if ← testNext (.ofChar ')') then return .nil
      let args ← expressions fuel
      expectMatch (.ofChar ')') (.ofChar '(') line
      settleLastHere args
    | _ => failText "function arguments expected"

/-- Expressions with commas between them; the line of the last one is left open. -/
def expressions : Nat → Parse ExprList
  | 0 => outOfFuel
  | fuel + 1 => do
    let base := (← getScope).free
    let e ← expression fuel
    if ← testNext (.ofChar ',') then
      let e ← settleHere e
      useSlots (base + 1)
      return .cons e (← expressions fuel)
    else
      useSlots (base + 1)
      return .cons e .nil

def table : Nat → Parse Expr
  | 0 => outOfFuel
  | fuel + 1 => do
    let line ← getLine
    let base := (← getScope).free
    useSlots (base + 1)
    expectChar '\x7b'
    let fields ← tableFields fuel line none
    useSlots (base + 1)
    return .table (FieldList.ofList fields) line

/-- The fields up to the closing brace. An item is stored once the next field begins or the table
ends, which gives it its line. -/
def tableFields : Nat → Nat → Option Expr → Parse (List (Option Expr × Expr × Nat))
  | 0, _, _ => outOfFuel
  | fuel + 1, line, item => do
    let flush : Parse (List (Option Expr × Expr × Nat)) := do
      match item with
      | none => return []
      | some e =>
        let l ← getLastLine
        return [(none, settle l e, l)]
    let finish : Parse (List (Option Expr × Expr × Nat)) := do
      expectMatch (.ofChar '\x7d') (.ofChar '\x7b') line
      flush
    if ← atChar '\x7d' then finish
    else
      let before ← flush
      let (now, next) ← tableField fuel
      let more := (← testNext (.ofChar ',')) || (← testNext (.ofChar ';'))
      if more then return before ++ now ++ (← tableFields fuel line next)
      else
        expectMatch (.ofChar '\x7d') (.ofChar '\x7b') line
        match next with
        | none => return before ++ now
        | some e =>
          let l ← getLastLine
          return before ++ now ++ [(none, settle l e, l)]

/-- One field: a keyed one, or an item that is not stored yet. -/
def tableField : Nat → Parse (List (Option Expr × Expr × Nat) × Option Expr)
  | 0 => outOfFuel
  | fuel + 1 => do
    let keyed (key : Expr) : Parse (List (Option Expr × Expr × Nat) × Option Expr) := do
      expectChar '='
      let value ← expression fuel
      let value ← settleHere value
      return ([(some key, value, ← getLastLine)], none)
    let base := (← getScope).free
    let item : Parse (List (Option Expr × Expr × Nat) × Option Expr) := do
      let e ← expression fuel
      useSlots base
      return ([], some e)
    match (current (← get)).kind with
    | .name s =>
      if isMark (← peek) (.ofChar '=') then
        advance
        let r ← keyed (.literal (.string s))
        useSlots base
        return r
      else item
    | .mark (.byte 91) =>
      let key ← bracketKey fuel
      holdValue base key
      let r ← keyed key
      useSlots base
      return r
    | _ => item

/-- Parameters and body of a function up to its `end`. -/
def functionBody : Nat → Bool → Nat → Parse Function
  | 0, _, _ => outOfFuel
  | fuel + 1, isMethod, line => do
    openFunction line
    enterBlock false
    expectChar '('
    let self ← if isMethod then pure [← declareLocal "self".toUTF8] else pure []
    activateLocals self
    let names ← if ← atChar ')' then pure [] else parameterNames fuel
    activateLocals names
    expectChar ')'
    let body ← statements fuel
    expectMatch .kEnd .kFunction line
    closeFunction (self ++ names) body

def statements : Nat → Parse StatementList
  | 0 => outOfFuel
  | fuel + 1 => do
    if endsBlock true (current (← get)) then return .nil
    else if ← atMark .kReturn then return .cons (← statement fuel) .nil
    else
      let s ← statement fuel
      return .cons s (← statements fuel)

/-- The statements of a block of its own. -/
def block : Nat → Parse StatementList
  | 0 => outOfFuel
  | fuel + 1 => do
    enterBlock false
    let body ← statements fuel
    let _ ← leaveBlock
    return body

def statement : Nat → Parse Statement
  | 0 => outOfFuel
  | fuel + 1 => do
    let s ← nested do
      let line ← getLine
      match (current (← get)).kind with
      | .mark (.byte 59) =>
        advance
        return .block .nil
      | .mark .kIf => ifStatement fuel line
      | .mark .kWhile => whileStatement fuel line
      | .mark .kDo =>
        advance
        let body ← block fuel
        expectMatch .kEnd .kDo line
        return .block body
      | .mark .kFor => forStatement fuel line
      | .mark .kRepeat => repeatStatement fuel line
      | .mark .kFunction => functionStatement fuel line
      | .mark .kLocal =>
        advance
        if ← testNext .kFunction then localFunction fuel else localStatement fuel
      | .mark .label =>
        advance
        let name ← expectName
        labelStatement fuel name line
      | .mark .kReturn =>
        advance
        returnStatement fuel
      | .mark .kBreak => breakStatement
      | .mark .kGoto =>
        advance
        gotoStatement
      | _ => expressionStatement fuel
    modifyScope fun s => { s with free := s.slots }
    return s

/-- A label takes in the empty statements and labels after it, since at the end of a block it stands
outside the scope of the locals there. -/
def labelStatement : Nat → ByteArray → Nat → Parse Statement
  | 0, _, _ => outOfFuel
  | fuel + 1, name, line => do
    expect .label
    let others ← emptyStatements fuel
    match ← findLabel name with
    | some other =>
      refuse ("label '".toUTF8 ++ name ++ ("' already defined on line " ++ toString other.line).toUTF8)
    | none =>
      let scope ← getScope
      let atEnd := endsBlock false (current (← get))
      let active := if atEnd then (scope.blocks.head?.map (·.active)).getD 0 else scope.active.size
      let id ← placeLabel name line active
      return .block (StatementList.ofList (others ++ [.label id]))

def emptyStatements : Nat → Parse (List Statement)
  | 0 => outOfFuel
  | fuel + 1 => do
    if (← atChar ';') || (← atMark .label) then
      let s ← statement fuel
      return s :: (← emptyStatements fuel)
    else return []

def ifStatement : Nat → Nat → Parse Statement
  | 0, _ => outOfFuel
  | fuel + 1, line => do
    let arms ← ifArms fuel
    let otherwise ← if ← testNext .kElse then block fuel else pure .nil
    expectMatch .kEnd .kIf line
    return .if arms otherwise

def ifArms : Nat → Parse ArmList
  | 0 => outOfFuel
  | fuel + 1 => do
    advance
    let condition ← expression fuel
    expect .kThen
    let condition ← settleHere condition
    modifyScope fun s => { s with free := s.slots }
    let body ← block fuel
    if ← atMark .kElseif then return .cons condition body (← ifArms fuel)
    else return .cons condition body .nil

def whileStatement : Nat → Nat → Parse Statement
  | 0, _ => outOfFuel
  | fuel + 1, line => do
    advance
    let condition ← expression fuel
    let condition ← settleHere condition
    modifyScope fun s => { s with free := s.slots }
    enterBlock true
    expect .kDo
    let body ← block fuel
    expectMatch .kEnd .kWhile line
    return .while condition body (← leaveBlock)

def repeatStatement : Nat → Nat → Parse Statement
  | 0, _ => outOfFuel
  | fuel + 1, line => do
    enterBlock true
    enterBlock false
    advance
    let body ← statements fuel
    expectMatch .kUntil .kRepeat line
    let condition ← expression fuel
    let condition ← settleHere condition
    let _ ← leaveBlock
    return .repeat body condition (← leaveBlock)

def forStatement : Nat → Nat → Parse Statement
  | 0, _ => outOfFuel
  | fuel + 1, line => do
    enterBlock true
    advance
    let name ← expectName
    match (current (← get)).kind with
    | .mark (.byte 61) => countedLoop fuel name line
    | .mark (.byte 44) | .mark .kIn => genericLoop fuel name line
    | _ => failText "'=' or 'in' expected"

def loopBound : Nat → Parse Expr
  | 0 => outOfFuel
  | fuel + 1 => do
    let base := (← getScope).free
    let e ← expression fuel
    let e ← settleHere e
    useSlots (base + 1)
    return e

def countedLoop : Nat → ByteArray → Nat → Parse Statement
  | 0, _, _ => outOfFuel
  | fuel + 1, name, line => do
    let hidden ← declareHidden 3
    let id ← declareLocal name
    expectChar '='
    let start ← loopBound fuel
    expectChar ','
    let limit ← loopBound fuel
    let step ← if ← testNext (.ofChar ',') then loopBound fuel
      else pure (.literal (.number (.int 1)))
    activateLocals hidden
    let (body, prepareLine) ← loopBody fuel [id]
    expectMatch .kEnd .kFor line
    return .count id (ExprList.ofList [start, limit, step]) body (← leaveBlock) prepareLine

def genericLoop : Nat → ByteArray → Nat → Parse Statement
  | 0, _, _ => outOfFuel
  | fuel + 1, name, line => do
    let hidden ← declareHidden 4
    match hidden.getLast? with
    | some id => modifyScope (·.setMode id .toBeClosed)
    | none => pure ()
    let id ← declareLocal name
    let others ← loopNames fuel
    expect .kIn
    let valuesLine ← getLine
    let values ← expressions fuel
    let values ← settleLastHere values
    activateLocals hidden
    let slots := (← getScope).slots
    useSlots (slots + 3)
    let (body, prepareLine) ← loopBody fuel (id :: others)
    expectMatch .kEnd .kFor line
    return .each (id :: others) values body (← leaveBlock) prepareLine valuesLine

/-- The body of a loop with the variables it declares, and the line of its `do`. -/
def loopBody : Nat → List Nat → Parse (StatementList × Nat)
  | 0, _ => outOfFuel
  | fuel + 1, ids => do
    expect .kDo
    let prepareLine ← getLastLine
    enterBlock false
    activateLocals ids
    modifyScope fun s => { s with free := s.slots }
    let body ← block fuel
    let _ ← leaveBlock
    return (body, prepareLine)

def functionStatement : Nat → Nat → Parse Statement
  | 0, _ => outOfFuel
  | fuel + 1, line => do
    advance
    let name ← expectName
    let v ← variableNamed name
    let (target, isMethod) ← functionName fuel v
    let f ← functionBody fuel isMethod line
    match target with
    | .variable _ name => checkAssignable name
    | .literal _ => checkAssignable name
    | _ => pure ()
    return .assign (.cons (settle line target) .nil) (.cons (.function f) .nil) line

/-- The fields and the method that follow the name of a function. -/
def functionName : Nat → Expr → Parse (Expr × Bool)
  | 0, _ => outOfFuel
  | fuel + 1, e => do
    let field : Parse Expr := do
      let object ← settleHere e
      advance
      let name ← expectName
      return .index object (.literal (.string name)) (← getLastLine)
    if ← atChar '.' then functionName fuel (← field)
    else if ← atChar ':' then return (← field, true)
    else return (e, false)

def localFunction : Nat → Parse Statement
  | 0 => outOfFuel
  | fuel + 1 => do
    let id ← declareLocal (← expectName)
    activateLocals [id]
    let line ← getLine
    return .localFunction id (← functionBody fuel false line)

def localStatement : Nat → Parse Statement
  | 0 => outOfFuel
  | fuel + 1 => do
    let ids ← localNames fuel false
    let values ← if ← testNext (.ofChar '=') then do settleLastHere (← expressions fuel)
      else pure .nil
    let constant : Option (Nat × Literal) :=
      match ids.getLast?, lastValue values with
      | some (id, .constant), some e =>
        if ids.length == values.length then (constantValue? e).map (id, ·) else none
      | _, _ => none
    match constant with
    | some (id, value) => modifyScope (·.setValue id value)
    | none => pure ()
    let line ← getLastLine
    activateLocals (ids.map (·.1))
    return .local ids values line

def returnStatement : Nat → Parse Statement
  | 0 => outOfFuel
  | fuel + 1 => do
    let t := current (← get)
    let values ←
      if endsBlock true t || isMark t (.ofChar ';') then pure .nil
      else do settleLastHere (← expressions fuel)
    let line ← getLastLine
    let scope ← getScope
    let tail :=
      match values with
      | .cons e .nil => e.isCall && scope.toBeClosed scope.active.size == 0
      | _ => false
    let _ ← testNext (.ofChar ';')
    return .return values tail line

def expressionStatement : Nat → Parse Statement
  | 0 => outOfFuel
  | fuel + 1 => do
    let startName : Option ByteArray :=
      match (current (← get)).kind with
      | .name s => some s
      | _ => none
    let e ← suffixedExpression fuel
    if (← atChar '=') || (← atChar ',') then
      let targets ← assignmentTargets fuel startName e
      let values ← expressions fuel
      let values ← settleLastHere values
      let line ← getLastLine
      return .assign (settleAll line targets) values line
    else if e.isCall then return .call e
    else failText "syntax error"

/-- The targets of an assignment from the first on, up to the equal sign. -/
def assignmentTargets : Nat → Option ByteArray → Expr → Parse ExprList
  | 0, _, _ => outOfFuel
  | fuel + 1, name, e => do
    match e, name with
    | .variable _ name, _ => checkAssignable name
    | .literal _, some name => checkAssignable name
    | e, _ => if !isVariable e then failText "syntax error"
    if ← testNext (.ofChar ',') then
      let name : Option ByteArray :=
        match (current (← get)).kind with
        | .name s => some s
        | _ => none
      let next ← suffixedExpression fuel
      let rest ← nested (assignmentTargets fuel name next)
      return .cons e rest
    else
      expectChar '='
      return .cons e .nil

end

/-- A whole script, as a function of any number of arguments that captures the environment. -/
def script (fuel : Nat) : Parse Function := do
  enterBlock false
  advance
  let body ← statements fuel
  match (current (← get)).kind with
  | .endOfText => pure ()
  | _ => failText "<eof> expected"
  closeFunction [] body

end Gauge.Script.Parser

namespace Gauge.Script.Function

/-- Reads a script; `depth` is how deep the calls are nested that ask for it. -/
def read (code : ByteArray) (depth : Nat) : Except ReadError Function :=
  let (tokens, problem) := Lexer.tokens code
  -- reading starts before the first token
  let start : Token := ⟨.mark (.byte 59), 1, ByteArray.empty⟩
  let scope : Scope := { Scope.empty 0 true with
    captures := #[⟨Parser.environmentName, .enclosingLocal 0, .regular⟩] }
  match (Parser.script (64 * (tokens.size + 16))).run ⟨#[start] ++ tokens, problem, 0, false, 1, depth, scope, []⟩ with
  | .ok f _ => .ok f
  | .error e _ => .error e

end Gauge.Script.Function
