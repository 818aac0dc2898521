import Mathlib.Data.List.Induction

/-! The query language of SQLite's FTS5 as its documentation gives it: how a text is cut into
tokens, and the grammar over the tokens. -/
namespace FullText

inductive Token where
  | bareword (w : List Char)
  | quoted (w : List Char)
  | and | or | not
  | lp | rp | lcb | rcb | colon | comma | plus | star | minus | caret
deriving DecidableEq, Repr

def quote : Char := Char.ofNat 34

def isSpace (c : Char) : Bool := c == ' ' || c == '\t' || c == '\n' || c == '\r'

/-- Letters, digits, the underscore, the substitute character, and all beyond ASCII. -/
def isBareword (c : Char) : Bool :=
  c.isAlphanum || c == '_' || c.toNat == 26 || 127 < c.toNat

def punctuation : Char → Option Token
  | '(' => some .lp
  | ')' => some .rp
  | '{' => some .lcb
  | '}' => some .rcb
  | ':' => some .colon
  | ',' => some .comma
  | '+' => some .plus
  | '*' => some .star
  | '-' => some .minus
  | '^' => some .caret
  | _ => none

/-- AND, OR and NOT are operators unless they are quoted. -/
def word (w : List Char) : Token :=
  if w = "AND".toList then .and
  else if w = "OR".toList then .or
  else if w = "NOT".toList then .not
  else .bareword w

/-- Where the reader stands: what is open, and what has been read of it. -/
inductive State where
  | between
  | bareword (w : List Char)
  | quoted (w : List Char)
  | closing (w : List Char)

def start (c : Char) : Option (List Token × State) :=
  if isSpace c then some ([], .between)
  else if c = quote then some ([], .quoted [])
  else if isBareword c then some ([], .bareword [c])
  else (punctuation c).map fun t => ([t], .between)

/-- A quote inside a string closes it, unless a second one follows. -/
def advance (s : State) (c : Char) : Option (List Token × State) :=
  match s with
  | .between => start c
  | .bareword w =>
    if isBareword c then some ([], .bareword (w ++ [c]))
    else (start c).map fun p => (word w :: p.1, p.2)
  | .quoted w => if c = quote then some ([], .closing w) else some ([], .quoted (w ++ [c]))
  | .closing w =>
    if c = quote then some ([], .quoted (w ++ [quote]))
    else (start c).map fun p => (.quoted w :: p.1, p.2)

/-- A string that is still open is an error. -/
def finish : State → Option (List Token)
  | .between => some []
  | .bareword w => some [word w]
  | .quoted _ => none
  | .closing w => some [.quoted w]

def scan (s : State) : List Char → Option (List Token)
  | [] => finish s
  | c :: cs => (advance s c).bind fun p => (scan p.2 cs).map (p.1 ++ ·)

section grammar

inductive IsString : Token → Prop where
  | bareword (w : List Char) : IsString (.bareword w)
  | quoted (w : List Char) : IsString (.quoted w)

inductive Phrase : List Token → Prop where
  | string {t : Token} : IsString t → Phrase [t]
  | star {t : Token} : IsString t → Phrase [t, .star]
  | plus {ts us : List Token} : Phrase ts → Phrase us → Phrase (ts ++ .plus :: us)

inductive Phrases : List Token → Prop where
  | one {ts : List Token} : Phrase ts → Phrases ts
  | more {ts us : List Token} : Phrases ts → Phrase us → Phrases (ts ++ us)

inductive NearGroup : List Token → Prop where
  | near {ts : List Token} : Phrases ts →
      NearGroup (.bareword "NEAR".toList :: .lp :: ts ++ [.rp])
  | within {ts : List Token} {n : List Char} : Phrases ts → (∀ c ∈ n, c.isDigit = true) →
      NearGroup (.bareword "NEAR".toList :: .lp :: ts ++ [.comma, .bareword n, .rp])

inductive IsColumn (columns : List Char → Prop) : Token → Prop where
  | bareword {w : List Char} : columns w → IsColumn columns (.bareword w)
  | quoted {w : List Char} : columns w → IsColumn columns (.quoted w)

/-- One column, or several in braces. -/
inductive ColSpec (columns : List Char → Prop) : List Token → Prop where
  | one {t : Token} : IsColumn columns t → ColSpec columns [t]
  | several {ts : List Token} : ts ≠ [] → (∀ t ∈ ts, IsColumn columns t) →
      ColSpec columns (.lcb :: ts ++ [.rcb])

/-- The columns that a query is restricted to, if it is. -/
inductive ColFilter (columns : List Char → Prop) : List Token → Prop where
  | none : ColFilter columns []
  | only {ts : List Token} : ColSpec columns ts → ColFilter columns (ts ++ [.colon])
  | except {ts : List Token} : ColSpec columns ts → ColFilter columns (.minus :: ts ++ [.colon])

inductive Term (columns : List Char → Prop) : List Token → Prop where
  | phrase {fs ts : List Token} : ColFilter columns fs → Phrase ts → Term columns (fs ++ ts)
  | initial {fs ts : List Token} : ColFilter columns fs → Phrase ts →
      Term columns (fs ++ .caret :: ts)
  | near {fs ts : List Token} : ColFilter columns fs → NearGroup ts → Term columns (fs ++ ts)

/-- Terms in a row, which all have to match. -/
inductive Terms (columns : List Char → Prop) : List Token → Prop where
  | one {ts : List Token} : Term columns ts → Terms columns ts
  | more {ts us : List Token} : Terms columns ts → Term columns us → Terms columns (ts ++ us)

inductive Query (columns : List Char → Prop) : List Token → Prop where
  | terms {ts : List Token} : Terms columns ts → Query columns ts
  | parens {fs ts : List Token} : ColFilter columns fs → Query columns ts →
      Query columns (fs ++ .lp :: ts ++ [.rp])
  | and {ts us : List Token} : Query columns ts → Query columns us →
      Query columns (ts ++ .and :: us)
  | or {ts us : List Token} : Query columns ts → Query columns us →
      Query columns (ts ++ .or :: us)
  | not {ts us : List Token} : Query columns ts → Query columns us →
      Query columns (ts ++ .not :: us)

def IsQuery (columns : List Char → Prop) (text : String) : Prop :=
  ∃ ts, scan .between text.toList = some ts ∧ Query columns ts

end grammar

section quotes

def State.inside : State → Bool
  | .quoted _ => true
  | _ => false

theorem start_inside {c : Char} {p : List Token × State} (h : start c = some p) :
    p.2.inside = (c == quote) := by
  unfold start at h
  by_cases hspace : isSpace c = true
  · rw [if_pos hspace] at h
    cases h
    have hne : c ≠ quote := by
      rintro rfl
      exact absurd hspace (by decide)
    exact (beq_false_of_ne hne).symm
  · rw [if_neg hspace] at h
    by_cases hquote : c = quote
    · rw [if_pos hquote] at h
      cases h
      simp [hquote, State.inside]
    · rw [if_neg hquote] at h
      have hne : (c == quote) = false := beq_false_of_ne hquote
      split_ifs at h
      · cases h
        exact hne.symm
      · obtain ⟨t, -, rfl⟩ := Option.map_eq_some_iff.mp h
        exact hne.symm

theorem advance_inside {s : State} {c : Char} {p : List Token × State}
    (h : advance s c = some p) : p.2.inside = (s.inside ^^ (c == quote)) := by
  have hstart {t : Token} (h : (start c).map (fun p => (t :: p.1, p.2)) = some p) :
      p.2.inside = (false ^^ (c == quote)) := by
    obtain ⟨q, hq, rfl⟩ := Option.map_eq_some_iff.mp h
    exact (start_inside hq).trans (Bool.false_xor _).symm
  cases s with
  | between => exact (start_inside h).trans (Bool.false_xor _).symm
  | bareword w =>
    rw [advance] at h
    split at h
    · rename_i hword
      cases h
      have hne : c ≠ quote := by
        rintro rfl
        exact absurd hword (by decide)
      exact (beq_false_of_ne hne).symm.trans (Bool.false_xor _).symm
    · exact hstart h
  | quoted w =>
    rw [advance] at h
    split at h <;> cases h <;> simp_all [State.inside]
  | closing w =>
    rw [advance] at h
    split at h
    · cases h
      simp_all [State.inside]
    · exact hstart h

theorem scan_quotes {s : State} {cs : List Char} {ts : List Token} (h : scan s cs = some ts) :
    (cs.count quote + s.inside.toNat) % 2 = 0 := by
  induction cs generalizing s ts with
  | nil =>
    cases s with
    | quoted w => cases h
    | between | bareword w | closing w => rfl
  | cons c cs ih =>
    rw [scan] at h
    obtain ⟨p, hp, h⟩ := Option.bind_eq_some_iff.mp h
    obtain ⟨us, hus, -⟩ := Option.map_eq_some_iff.mp h
    have hrest := ih hus
    rw [advance_inside hp] at hrest
    rw [List.count_cons]
    generalize s.inside = opened at hrest ⊢
    generalize (c == quote) = isQuote at hrest ⊢
    cases opened <;> cases isQuote <;> simp at hrest ⊢ <;> omega

theorem not_isQuery_of_quotes {columns : List Char → Prop} {text : String}
    (h : text.toList.count quote % 2 = 1) : ¬ IsQuery columns text := by
  rintro ⟨ts, hts, -⟩
  have hquotes := scan_quotes hts
  simp only [State.inside, Bool.toNat_false, Nat.add_zero] at hquotes
  omega

end quotes

section words
variable {columns : List Char → Prop}

structure IsWord (w : List Char) : Prop where
  nonempty : w ≠ []
  chars : ∀ c ∈ w, isBareword c = true
  operator : word w = .bareword w

theorem scan_bareword {w : List Char} (hw : ∀ c ∈ w, isBareword c = true) (v cs : List Char) :
    scan (.bareword v) (w ++ cs) = scan (.bareword (v ++ w)) cs := by
  induction w generalizing v with
  | nil => rw [List.nil_append, List.append_nil]
  | cons c w ih =>
    rw [List.cons_append, scan, advance, if_pos (hw c List.mem_cons_self), Option.bind_some,
      ih fun d hd => hw d (List.mem_cons_of_mem c hd), List.append_assoc]
    simp

theorem isBareword_start {c : Char} (h : isBareword c = true) :
    start c = some ([], .bareword [c]) := by
  have hspace : ¬isSpace c = true := by
    intro hspace
    simp only [isSpace, Bool.or_eq_true, beq_iff_eq] at hspace
    rcases hspace with ((rfl | rfl) | rfl) | rfl
    all_goals exact absurd h (by decide)
  have hquote : c ≠ quote := by
    rintro rfl
    exact absurd h (by decide)
  rw [start, if_neg hspace, if_neg hquote, if_pos h]

theorem IsWord.scan {w : List Char} (h : IsWord w) (cs : List Char) :
    scan .between (w ++ cs) = FullText.scan (.bareword w) cs := by
  obtain ⟨c, w, rfl⟩ := List.exists_cons_of_ne_nil h.nonempty
  rw [List.cons_append, FullText.scan, advance, isBareword_start (h.chars c List.mem_cons_self),
    Option.bind_some, scan_bareword fun d hd => h.chars d (List.mem_cons_of_mem c hd)]
  simp

theorem scan_space (w cs : List Char) :
    scan (.bareword w) (' ' :: cs) = (scan .between cs).map (word w :: ·) := by
  have hspace : start ' ' = some ([], .between) := rfl
  rw [scan, advance, if_neg (by decide), hspace]
  rfl

theorem scan_words : ∀ {ws : List (List Char)}, ws ≠ [] → (∀ w ∈ ws, IsWord w) →
    scan .between ([' '].intercalate ws) = some (ws.map .bareword)
  | [], hne, _ => absurd rfl hne
  | [w], _, h => by
    have hw := h w List.mem_cons_self
    have hscan := hw.scan []
    rw [List.append_nil] at hscan
    rw [List.intercalate_singleton, hscan, scan, finish, hw.operator]
    rfl
  | w :: v :: ws, _, h => by
    have ih := scan_words (List.cons_ne_nil v ws) fun u hu => h u (List.mem_cons_of_mem w hu)
    have hw := h w List.mem_cons_self
    rw [List.intercalate_cons_cons, List.append_assoc, hw.scan, List.singleton_append,
      scan_space, ih, hw.operator]
    rfl

theorem terms_words {ws : List (List Char)} (hne : ws ≠ []) :
    Terms columns (ws.map .bareword) := by
  have hword (w : List Char) : Term columns [.bareword w] :=
    Term.phrase ColFilter.none (Phrase.string (.bareword w))
  induction ws using List.reverseRecOn with
  | nil => exact absurd rfl hne
  | append_singleton ws w ih =>
    cases ws with
    | nil => exact .one (hword w)
    | cons v ws =>
      rw [List.map_append]
      exact .more (ih (List.cons_ne_nil v ws)) (hword w)

theorem isQuery_words {ws : List (List Char)} {text : String} (hne : ws ≠ [])
    (h : ∀ w ∈ ws, IsWord w) (htext : text.toList = [' '].intercalate ws) :
    IsQuery columns text :=
  ⟨ws.map .bareword, by rw [htext, scan_words hne h], .terms (terms_words hne)⟩

end words
end FullText
