import Mathlib.Data.List.Induction

/-! UPDATE statements as texts: put together piece by piece by a query builder, cut into
tokens, read back as a statement, and bound to their arguments. -/
namespace Sql

inductive Token where
  | word (w : String)
  | equals
  | comma
  | placeholder
deriving DecidableEq, Repr

def isWordChar (c : Char) : Bool := c.isAlphanum || c == '_'

def flush (word : List Char) (tokens : List Token) : List Token :=
  if word.isEmpty then tokens else .word (String.ofList word) :: tokens

def lex (word : List Char) : List Char → Option (List Token)
  | [] => some (flush word [])
  | c :: cs =>
    if isWordChar c then lex (word ++ [c]) cs
    else if c = ' ' then (lex [] cs).map (flush word)
    else if c = '=' then (lex [] cs).map fun tokens => flush word (.equals :: tokens)
    else if c = ',' then (lex [] cs).map fun tokens => flush word (.comma :: tokens)
    else if c = '?' then (lex [] cs).map fun tokens => flush word (.placeholder :: tokens)
    else none

inductive Expr where
  | null
  | placeholder
deriving DecidableEq, Repr

/-- `UPDATE table SET column = …, … WHERE column = … AND …`. -/
structure Update where
  table : String
  sets : List (String × Expr)
  conditions : List (String × Expr)
deriving DecidableEq, Repr

def keywords : List String := ["UPDATE", "SET", "WHERE", "AND", "NULL"]

/-- A name is a word that starts with no digit and is no keyword. -/
def isName (w : String) : Bool :=
  w.toList.all isWordChar && w.toList.head?.any (fun c => !c.isDigit) && !keywords.contains w

def Expr.ofToken : Token → Option Expr
  | .placeholder => some .placeholder
  | .word w => if w = "NULL" then some .null else none
  | _ => none

def parseItem (column : String) (value : Token) : Option (String × Expr) :=
  if isName column then (Expr.ofToken value).map fun e => (column, e) else none

/-- Items with commas between them, up to whatever follows. -/
def parseSets : List Token → Option (List (String × Expr) × List Token)
  | .word c :: .equals :: v :: .comma :: rest =>
    (parseItem c v).bind fun x => (parseSets rest).map fun p => (x :: p.1, p.2)
  | .word c :: .equals :: v :: rest => (parseItem c v).map fun x => ([x], rest)
  | _ => none

/-- Items with AND between them, to the end. -/
def parseConditions : List Token → Option (List (String × Expr))
  | [.word c, .equals, v] => (parseItem c v).map fun x => [x]
  | .word c :: .equals :: v :: .word a :: rest =>
    if a = "AND" then (parseItem c v).bind fun x => (parseConditions rest).map (x :: ·) else none
  | _ => none

def parseWhere : List Token → Option (List (String × Expr))
  | .word w :: rest => if w = "WHERE" then parseConditions rest else none
  | _ => none

def parseTokens : List Token → Option Update
  | .word u :: .word table :: .word s :: rest =>
    if u = "UPDATE" ∧ s = "SET" ∧ isName table = true then
      (parseSets rest).bind fun p => (parseWhere p.2).map fun conditions => ⟨table, p.1, conditions⟩
    else none
  | _ => none

def Update.parse (text : String) : Option Update := (lex [] text.toList).bind parseTokens

def Expr.print : Expr → String
  | .null => "NULL"
  | .placeholder => "?"

def printItem (x : String × Expr) : String := x.1 ++ " = " ++ x.2.print

def Update.print (s : Update) : String :=
  "UPDATE " ++ s.table ++ " SET " ++ String.intercalate ", " (s.sets.map printItem) ++ " WHERE " ++
    String.intercalate " AND " (s.conditions.map printItem)

/-- The table and the columns have names; there is something to set and to look for. -/
structure Update.WellFormed (s : Update) : Prop where
  table : isName s.table = true
  sets : s.sets ≠ []
  setNames : ∀ x ∈ s.sets, isName x.1 = true
  conditions : s.conditions ≠ []
  conditionNames : ∀ x ∈ s.conditions, isName x.1 = true

section lexing

/-- What follows ends a word. -/
def Breaks : List Char → Prop
  | [] => True
  | c :: _ => isWordChar c = false

@[simp] theorem flush_nil : flush [] = id := rfl

theorem lex_breaks {rest : List Char} (h : Breaks rest) (word : List Char) :
    lex word rest = (lex [] rest).map (flush word) := by
  cases rest with
  | nil => rfl
  | cons c cs =>
    have hc : ¬isWordChar c = true := Bool.not_eq_true _ ▸ h
    rw [lex, lex, if_neg hc, if_neg hc]
    split_ifs <;> simp [Function.comp_def]

theorem lex_word {w : List Char} (hw : ∀ c ∈ w, isWordChar c = true) (word rest : List Char) :
    lex word (w ++ rest) = lex (word ++ w) rest := by
  induction w generalizing word with
  | nil => rw [List.nil_append, List.append_nil]
  | cons c w ih =>
    rw [List.cons_append, lex, if_pos (hw c List.mem_cons_self),
      ih fun d hd => hw d (List.mem_cons_of_mem c hd), List.append_assoc]
    rfl

/-- Before a break, the text reads as these tokens. -/
def Lexes (text : List Char) (tokens : List Token) : Prop :=
  ∀ rest, Breaks rest → lex [] (text ++ rest) = (lex [] rest).map (tokens ++ ·)

/-- A text that separates: it ends the word before it, and reads as these tokens whatever
follows. -/
structure Separates (text : List Char) (tokens : List Token) : Prop where
  breaks : ∀ rest, Breaks (text ++ rest)
  lexes : ∀ rest, lex [] (text ++ rest) = (lex [] rest).map (tokens ++ ·)

theorem Lexes.word {w : String} (hne : w.toList ≠ []) (hw : w.toList.all isWordChar = true) :
    Lexes w.toList [.word w] := by
  intro rest hrest
  rw [lex_word (List.all_eq_true.mp hw), List.nil_append, lex_breaks hrest]
  refine congrArg (Option.map · _) (funext fun tokens => ?_)
  rw [flush, if_neg (by simpa using hne), String.ofList_toList]
  rfl

theorem Lexes.placeholder : Lexes "?".toList [.placeholder] := fun _ _ => rfl

theorem Lexes.glue {a b sep : List Char} {ts us vs : List Token} (ha : Lexes a ts)
    (hsep : Separates sep us) (hb : Lexes b vs) : Lexes (a ++ (sep ++ b)) (ts ++ (us ++ vs)) := by
  intro rest hrest
  rw [List.append_assoc, List.append_assoc, ha _ (hsep.breaks _), hsep.lexes, hb rest hrest]
  simp [Function.comp_def]

theorem Separates.glue {a b w : List Char} {ts us vs : List Token} (ha : Separates a ts)
    (hw : Lexes w us) (hb : Separates b vs) :
    Separates (a ++ (w ++ b)) (ts ++ (us ++ vs)) := by
  refine ⟨fun rest => by rw [List.append_assoc]; exact ha.breaks _, fun rest => ?_⟩
  rw [List.append_assoc, List.append_assoc, ha.lexes, hw _ (hb.breaks _), hb.lexes]
  simp [Function.comp_def]

theorem separates_space : Separates " ".toList [] :=
  ⟨fun _ => rfl, fun _ => by simp [lex, isWordChar]⟩

theorem separates_equals : Separates " = ".toList [.equals] :=
  ⟨fun _ => rfl, fun _ => by simp [lex, isWordChar]⟩

theorem separates_comma : Separates ", ".toList [.comma] :=
  ⟨fun _ => rfl, fun _ => by simp [lex, isWordChar]⟩

theorem separates_and : Separates " AND ".toList [.word "AND"] :=
  separates_space.glue (.word (w := "AND") (by decide) (by decide)) separates_space

theorem separates_set : Separates " SET ".toList [.word "SET"] :=
  separates_space.glue (.word (w := "SET") (by decide) (by decide)) separates_space

theorem separates_where : Separates " WHERE ".toList [.word "WHERE"] :=
  separates_space.glue (.word (w := "WHERE") (by decide) (by decide)) separates_space

theorem Lexes.name {w : String} (h : isName w = true) : Lexes w.toList [.word w] := by
  simp only [isName, Bool.and_eq_true] at h
  refine .word (fun hnil => ?_) h.1.1
  rw [hnil] at h
  exact absurd h.1.2 (by decide)

def Expr.token : Expr → Token
  | .null => .word "NULL"
  | .placeholder => .placeholder

def itemTokens (x : String × Expr) : List Token := [.word x.1, .equals, x.2.token]

theorem Expr.lexes (e : Expr) : Lexes e.print.toList [e.token] := by
  cases e with
  | null => exact .word (by decide) (by decide)
  | placeholder => exact .placeholder

theorem lexes_item {x : String × Expr} (h : isName x.1 = true) :
    Lexes (printItem x).toList (itemTokens x) := by
  rw [printItem, String.append_assoc, String.toList_append, String.toList_append]
  exact (Lexes.name h).glue separates_equals x.2.lexes

theorem lexes_items {sep : String} {us : List Token} (hsep : Separates sep.toList us) :
    ∀ {xs : List (String × Expr)}, xs ≠ [] → (∀ x ∈ xs, isName x.1 = true) →
      Lexes (String.intercalate sep (xs.map printItem)).toList
        (us.intercalate (xs.map itemTokens))
  | [], hne, _ => absurd rfl hne
  | [x], _, h => by simpa using lexes_item (h x List.mem_cons_self)
  | x :: y :: xs, _, h => by
    have ih := lexes_items hsep (List.cons_ne_nil y xs) fun z hz => h z (List.mem_cons_of_mem x hz)
    have hglue := (lexes_item (h x List.mem_cons_self)).glue hsep ih
    simpa [List.append_assoc] using hglue

def Update.tokens (s : Update) : List Token :=
  .word "UPDATE" :: .word s.table :: .word "SET" ::
    ([Token.comma].intercalate (s.sets.map itemTokens) ++
      .word "WHERE" :: [Token.word "AND"].intercalate (s.conditions.map itemTokens))

theorem Update.WellFormed.lexes {s : Update} (h : s.WellFormed) :
    Lexes s.print.toList s.tokens := by
  have hsets := lexes_items separates_comma h.sets h.setNames
  have hconds := lexes_items separates_and h.conditions h.conditionNames
  have hall := (Lexes.word (w := "UPDATE") (by decide) (by decide)).glue separates_space
    ((Lexes.name h.table).glue separates_set (hsets.glue separates_where hconds))
  simpa [Update.print, Update.tokens] using hall

end lexing

section parsing

@[simp] theorem Expr.ofToken_token (e : Expr) : Expr.ofToken e.token = some e := by
  cases e <;> rfl

theorem parseItem_token {x : String × Expr} (h : isName x.1 = true) :
    parseItem x.1 x.2.token = some x := by
  rw [parseItem, if_pos h, Expr.ofToken_token]
  rfl

theorem parseSets_items (w : String) (rest : List Token) :
    ∀ {xs : List (String × Expr)}, xs ≠ [] → (∀ x ∈ xs, isName x.1 = true) →
      parseSets ([Token.comma].intercalate (xs.map itemTokens) ++ .word w :: rest) =
        some (xs, .word w :: rest)
  | [], hne, _ => absurd rfl hne
  | [x], _, h => by simp [itemTokens, parseSets, parseItem_token (h x List.mem_cons_self)]
  | x :: y :: xs, _, h => by
    have ih := parseSets_items w rest (List.cons_ne_nil y xs)
      fun z hz => h z (List.mem_cons_of_mem x hz)
    rw [List.map_cons] at ih ⊢
    rw [List.map_cons, List.intercalate_cons_cons, itemTokens, List.append_assoc, List.append_assoc]
    simp only [List.cons_append, List.nil_append, parseSets, ih,
      parseItem_token (h x List.mem_cons_self), Option.bind_some, Option.map_some]

theorem parseConditions_items :
    ∀ {xs : List (String × Expr)}, xs ≠ [] → (∀ x ∈ xs, isName x.1 = true) →
      parseConditions ([Token.word "AND"].intercalate (xs.map itemTokens)) = some xs
  | [], hne, _ => absurd rfl hne
  | [x], _, h => by simp [itemTokens, parseConditions, parseItem_token (h x List.mem_cons_self)]
  | x :: y :: xs, _, h => by
    have ih := parseConditions_items (List.cons_ne_nil y xs)
      fun z hz => h z (List.mem_cons_of_mem x hz)
    rw [List.map_cons] at ih ⊢
    rw [List.map_cons, List.intercalate_cons_cons, itemTokens, List.append_assoc]
    simp only [List.cons_append, List.nil_append, parseConditions, ih, if_pos,
      parseItem_token (h x List.mem_cons_self), Option.bind_some, Option.map_some]

theorem Update.WellFormed.parseTokens {s : Update} (h : s.WellFormed) :
    parseTokens s.tokens = some s := by
  simp [Update.tokens, Sql.parseTokens, h.table, parseSets_items _ _ h.sets h.setNames, parseWhere,
    parseConditions_items h.conditions h.conditionNames]

/-- A printed statement reads back as itself. -/
theorem Update.WellFormed.parse_print {s : Update} (h : s.WellFormed) :
    Update.parse s.print = some s := by
  have hlex := h.lexes [] trivial
  rw [List.append_nil] at hlex
  rw [Update.parse, hlex]
  simpa [lex] using h.parseTokens

end parsing
section binding
variable {V : Type}

/-- A statement with its values; `none` is NULL. -/
structure Bound (V : Type) where
  table : String
  sets : List (String × Option V)
  conditions : List (String × Option V)
deriving DecidableEq, Repr

/-- Placeholders take the arguments in order; what is left over comes back. -/
def bindItems : List (String × Expr) → List V → Option (List (String × Option V) × List V)
  | [], arguments => some ([], arguments)
  | (c, .null) :: xs, arguments => (bindItems xs arguments).map fun p => ((c, none) :: p.1, p.2)
  | (c, .placeholder) :: xs, v :: arguments =>
    (bindItems xs arguments).map fun p => ((c, some v) :: p.1, p.2)
  | (_, .placeholder) :: _, [] => none

/-- There are as many arguments as placeholders. -/
def Update.bind (s : Update) (arguments : List V) : Option (Bound V) :=
  (bindItems s.sets arguments).bind fun p =>
    (bindItems s.conditions p.2).bind fun q =>
      if q.2.isEmpty then some ⟨s.table, p.1, q.1⟩ else none

def Expr.ofValue (v : Option V) : Expr := if v.isSome then .placeholder else .null

def item (x : String × Option V) : String × Expr := (x.1, .ofValue x.2)

def Bound.statement (b : Bound V) : Update := ⟨b.table, b.sets.map item, b.conditions.map item⟩

def Bound.arguments (b : Bound V) : List V :=
  b.sets.filterMap Prod.snd ++ b.conditions.filterMap Prod.snd

theorem bindItems_items (xs : List (String × Option V)) (rest : List V) :
    bindItems (xs.map item) (xs.filterMap Prod.snd ++ rest) = some (xs, rest) := by
  induction xs with
  | nil => rfl
  | cons x xs ih =>
    obtain ⟨c, _ | v⟩ := x
    · exact congrArg (Option.map _) ih
    · exact congrArg (Option.map _) ih

theorem Bound.bind_arguments (b : Bound V) : b.statement.bind b.arguments = some b := by
  have hconds := bindItems_items b.conditions []
  rw [List.append_nil] at hconds
  simp [Update.bind, Bound.statement, Bound.arguments, bindItems_items, hconds]

end binding

section building
variable {V : Type}

/-- A text under construction, with the values its placeholders stand for. -/
structure QueryBuilder (V : Type) where
  sql : String
  arguments : List V
deriving DecidableEq, Repr

/-- Pieces pushed with a separator between them. -/
structure Separated (V : Type) where
  builder : QueryBuilder V
  separator : String
  pushSeparator : Bool

namespace QueryBuilder

def new (sql : String) : QueryBuilder V := ⟨sql, []⟩

def push (b : QueryBuilder V) (text : String) : QueryBuilder V := ⟨b.sql ++ text, b.arguments⟩

def pushBind (b : QueryBuilder V) (value : V) : QueryBuilder V :=
  ⟨b.sql ++ "?", b.arguments ++ [value]⟩

def separated (b : QueryBuilder V) (separator : String) : Separated V := ⟨b, separator, false⟩

end QueryBuilder

namespace Separated

def push (s : Separated V) (text : String) : Separated V :=
  if s.pushSeparator then { s with builder := s.builder.push (s.separator ++ text) }
  else { s with builder := s.builder.push text, pushSeparator := true }

def pushUnseparated (s : Separated V) (text : String) : Separated V :=
  { s with builder := s.builder.push text }

def pushBindUnseparated (s : Separated V) (value : V) : Separated V :=
  { s with builder := s.builder.pushBind value }

def pushValue (s : Separated V) : Option V → Separated V
  | some v => s.pushBindUnseparated v
  | none => s.pushUnseparated "NULL"

def pushItem (s : Separated V) (x : String × Option V) : Separated V :=
  (s.push (x.1 ++ " = ")).pushValue x.2

theorem pushItem_eq (s : Separated V) (x : String × Option V) :
    s.pushItem x = ⟨⟨s.builder.sql ++ ((if s.pushSeparator then s.separator else "") ++
      printItem (item x)), s.builder.arguments ++ x.2.toList⟩, s.separator, true⟩ := by
  obtain ⟨b, sep, _ | _⟩ := s <;> obtain ⟨c, _ | v⟩ := x <;>
    simp [pushItem, push, pushValue, pushUnseparated, pushBindUnseparated, QueryBuilder.push,
      QueryBuilder.pushBind, printItem, item, Expr.ofValue, Expr.print, String.append_assoc]

theorem pushItems_eq (b : QueryBuilder V) (sep : String) (xs : List (String × Option V)) :
    xs.foldl pushItem (b.separated sep) =
      ⟨⟨b.sql ++ String.intercalate sep ((xs.map item).map printItem),
        b.arguments ++ xs.filterMap Prod.snd⟩, sep, !xs.isEmpty⟩ := by
  induction xs using List.reverseRecOn with
  | nil => simp [QueryBuilder.separated]
  | append_singleton xs x ih =>
    have hvalue : [x].filterMap Prod.snd = x.2.toList := by
      obtain ⟨c, _ | v⟩ := x <;> rfl
    rw [List.foldl_append, List.foldl_cons, List.foldl_nil, ih, pushItem_eq,
      List.filterMap_append, hvalue, List.map_append, List.map_append]
    cases xs with
    | nil => simp
    | cons y ys =>
      rw [String.intercalate_append_of_ne_nil (by simp) (by simp)]
      simp [String.append_assoc]

end Separated
end building
end Sql
