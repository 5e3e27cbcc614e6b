import Hyperscript.Proofs.Text.Literal

/-!
# A strict reader of JSON

Values keep what a text says: the entries of an object are a list, so their order and their
repetitions count, and a number is the characters that spell it.

Reading has two stages, and each is a machine that takes one step for each symbol.  The first cuts a
text into tokens: strings, whose escapes are resolved, the words that are not quoted, and the marks
around them.  The second puts tokens together with a stack of the arrays and objects that are open.

The main statements are that the second stage accepts the tokens of a value and nothing else
(`read_eq_some_iff`), and, for the first stage, what a text is cut into if a character follows that
cannot belong to a word (`Spells`).
-/

namespace Hyperscript

namespace Json

/-! ## Values and tokens -/

/-- What follows a run of digits; there has to be one. -/
def afterDigits? (cs : List Char) : Option (List Char) :=
  if (cs.takeWhile Char.isDigit).isEmpty then none else some (cs.dropWhile Char.isDigit)

/-- The exponent of a number, and its end. -/
def isExponent : List Char → Bool
  | [] => true
  | 'e' :: rest | 'E' :: rest =>
    match rest with
    | '+' :: rest | '-' :: rest => afterDigits? rest == some []
    | rest => afterDigits? rest == some []
  | _ => false

/-- What follows the integer part of a number. -/
def isFraction : List Char → Bool
  | '.' :: rest => (afterDigits? rest).any isExponent
  | rest => isExponent rest

/-- An optional minus, an integer without needless zeros, a fraction and an exponent. -/
def isNumber : List Char → Bool
  | '-' :: '0' :: rest | '0' :: rest => isFraction rest
  | '-' :: rest | rest => (afterDigits? rest).any isFraction

/-- A number as it is written. -/
structure Number where
  text : List Char
  valid : isNumber text = true
  deriving DecidableEq

inductive Scalar where
  | null
  | bool (value : Bool)
  | number (value : Number)
  | str (value : String)
  deriving DecidableEq

end Json

/-- A value of JSON. -/
inductive Json where
  | scalar (value : Json.Scalar)
  | array (items : List Json)
  /-- The entries in their order; a key may occur more than once. -/
  | object (entries : List (String × Json))

namespace Json

inductive Token where
  | openArray
  | closeArray
  | openObject
  | closeObject
  | colon
  | comma
  | scalar (value : Scalar)
  deriving DecidableEq

/-- Parts with commas between them. -/
def separated : List (List Token) → List Token
  | [] => []
  | [part] => part
  | part :: rest => part ++ .comma :: separated rest

mutual

/-- The tokens of a value. -/
def tokens : Json → List Token
  | scalar value => [.scalar value]
  | array items => .openArray :: separated (itemTokens items) ++ [.closeArray]
  | object entries => .openObject :: separated (entryTokens entries) ++ [.closeObject]

def itemTokens : List Json → List (List Token)
  | [] => []
  | item :: rest => item.tokens :: itemTokens rest

def entryTokens : List (String × Json) → List (List Token)
  | [] => []
  | (key, value) :: rest => (.scalar (.str key) :: .colon :: value.tokens) :: entryTokens rest

end

/-! ## From tokens to values -/

/-- An array or an object that is open: what it has so far, and for an object the key whose value
comes next. -/
inductive Frame where
  | array (items : List Json)
  | object (entries : List (String × Json)) (key : String)

/-- How far reading has come.  The innermost frame is the first of the stack. -/
inductive State where
  -- a value comes next
  | value (stack : List Frame)
  -- an array has just been opened
  | arrayStart (stack : List Frame)
  -- an object has just been opened
  | objectStart (stack : List Frame)
  -- a key comes next, after some entries
  | key (entries : List (String × Json)) (stack : List Frame)
  -- the colon after a key comes next
  | colon (entries : List (String × Json)) (key : String) (stack : List Frame)
  -- a value has just been read
  | read (value : Json) (stack : List Frame)

/-- The first token of a value. -/
def begin (stack : List Frame) : Token → Option State
  | .scalar value => some (.read (.scalar value) stack)
  | .openArray => some (.arrayStart stack)
  | .openObject => some (.objectStart stack)
  | _ => none

def State.step : State → Token → Option State
  | value stack, token => begin stack token
  | arrayStart stack, .closeArray => some (.read (.array []) stack)
  | arrayStart stack, token => begin (.array [] :: stack) token
  | objectStart stack, .closeObject => some (.read (.object []) stack)
  | objectStart stack, .scalar (.str name) => some (.colon [] name stack)
  | key entries stack, .scalar (.str name) => some (.colon entries name stack)
  | colon entries name stack, .colon => some (.value (.object entries name :: stack))
  | read v (.array items :: stack), .comma => some (.value (.array (items ++ [v]) :: stack))
  | read v (.array items :: stack), .closeArray => some (.read (.array (items ++ [v])) stack)
  | read v (.object entries name :: stack), .comma => some (.key (entries ++ [(name, v)]) stack)
  | read v (.object entries name :: stack), .closeObject =>
    some (.read (.object (entries ++ [(name, v)])) stack)
  | _, _ => none

/-- The value of which there are all tokens and no others. -/
def read (tokens : List Token) : Option Json :=
  match tokens.foldlM State.step (.value []) with
  | some (.read value []) => some value
  -- the tokens go on after a value, or end inside one, or are in no order of tokens at all
  | _ => none

/-! ## What the reader accepts -/

/-- Parts with a comma after each. -/
def terminated (parts : List (List Token)) : List Token :=
  parts.flatMap (· ++ [.comma])

theorem separated_concat (parts : List (List Token)) (part : List Token) :
    separated (parts ++ [part]) = terminated parts ++ part := by
  induction parts with
  | nil => rfl
  | cons first parts ih =>
    cases parts with
    | nil => simp [separated, terminated]
    | cons second parts =>
      rw [List.cons_append, List.cons_append, separated, ← List.cons_append, ih]
      · simp [terminated]
      · simp

theorem separated_cons (part : List Token) (parts : List (List Token)) :
    separated (part :: parts) = part ++ parts.flatMap (.comma :: ·) := by
  induction parts generalizing part with
  | nil => simp [separated]
  | cons second parts ih =>
    rw [separated, ih second, List.flatMap_cons, List.cons_append]
    simp

theorem itemTokens_concat (items : List Json) (item : Json) :
    itemTokens (items ++ [item]) = itemTokens items ++ [item.tokens] := by
  induction items with
  | nil => rfl
  | cons first items ih => simp [itemTokens, ih]

theorem entryTokens_concat (entries : List (String × Json)) (key : String) (value : Json) :
    entryTokens (entries ++ [(key, value)]) =
      entryTokens entries ++ [.scalar (.str key) :: .colon :: value.tokens] := by
  induction entries with
  | nil => rfl
  | cons first entries ih => simp [entryTokens, ih]

/-- The tokens that led to a frame. -/
def Frame.tokens : Frame → List Token
  | array items => .openArray :: terminated (itemTokens items)
  | object entries key =>
    .openObject :: terminated (entryTokens entries) ++ [.scalar (.str key), .colon]

def stackTokens : List Frame → List Token
  | [] => []
  | frame :: stack => stackTokens stack ++ frame.tokens

/-- The tokens that led to a state. -/
def State.tokens : State → List Token
  | value stack => stackTokens stack
  | arrayStart stack => stackTokens stack ++ [.openArray]
  | objectStart stack => stackTokens stack ++ [.openObject]
  | key entries stack => stackTokens stack ++ .openObject :: terminated (entryTokens entries)
  | colon entries name stack =>
    stackTokens stack ++ .openObject :: terminated (entryTokens entries) ++ [.scalar (.str name)]
  | read v stack => stackTokens stack ++ v.tokens

theorem tokens_of_begin {stack : List Frame} {token : Token} {st : State}
    (h : begin stack token = some st) : st.tokens = stackTokens stack ++ [token] := by
  cases token <;> cases h <;> rfl

/-- A state remembers every token that led to it. -/
theorem State.tokens_of_step {st st' : State} {token : Token} :
    st.step token = some st' → st'.tokens = st.tokens ++ [token] := by
  fun_cases State.step st token with
  | case1 stack => exact tokens_of_begin
  | case3 stack _ =>
    -- an array without items is on the stack like any other
    intro h
    rw [tokens_of_begin h]
    rfl
  | case12 =>
    intro h
    cases h
  | _ =>
    intro h
    cases h
    simp [State.tokens, stackTokens, Frame.tokens, Json.tokens, itemTokens, entryTokens, separated,
      itemTokens_concat, entryTokens_concat, separated_concat, terminated]

theorem State.tokens_of_foldlM {st st' : State} {tokens : List Token}
    (h : tokens.foldlM step st = some st') : st'.tokens = st.tokens ++ tokens := by
  induction tokens generalizing st with
  | nil =>
    cases h
    exact (List.append_nil _).symm
  | cons token tokens ih =>
    rw [List.foldlM_cons] at h
    obtain ⟨st₁, hstep, h⟩ := Option.bind_eq_some_iff.1 h
    rw [ih h, tokens_of_step hstep, List.append_assoc]
    rfl

/-- In an array that has just been opened, the first item is read like any other value. -/
theorem foldlM_arrayStart (v : Json) (stack : List Frame) (rest : List Token) :
    (v.tokens ++ rest).foldlM State.step (.arrayStart stack) =
      (v.tokens ++ rest).foldlM State.step (.value (.array [] :: stack)) := by
  cases v <;> rfl

-- Completeness goes by recursion on the value: on any stack, the tokens of a value lead from where
-- it is expected to where it has been read, and those of further items or entries, with their
-- commas, to the end of the array or the object.

mutual

theorem foldlM_tokens : ∀ (v : Json) (stack : List Frame) (rest : List Token),
    (v.tokens ++ rest).foldlM State.step (.value stack) =
      rest.foldlM State.step (.read v stack)
  | .scalar value, stack, rest => rfl
  | .array [], stack, rest => rfl
  | .array (item :: items), stack, rest => by
    rw [tokens, itemTokens, separated_cons]
    simp only [List.cons_append, List.append_assoc, List.nil_append]
    show (item.tokens ++ _).foldlM State.step (.arrayStart stack) = _
    rw [foldlM_arrayStart, foldlM_tokens item, foldlM_items items]
    rfl
  | .object [], stack, rest => rfl
  | .object ((name, value) :: entries), stack, rest => by
    rw [tokens, entryTokens, separated_cons]
    simp only [List.cons_append, List.append_assoc, List.nil_append]
    show (value.tokens ++ _).foldlM State.step (.value (.object [] name :: stack)) = _
    rw [foldlM_tokens value, foldlM_entries entries]
    rfl

theorem foldlM_items : ∀ (items : List Json) (before : List Json) (v : Json) (stack : List Frame)
    (rest : List Token),
    ((itemTokens items).flatMap (.comma :: ·) ++ .closeArray :: rest).foldlM State.step
        (.read v (.array before :: stack)) =
      rest.foldlM State.step (.read (.array (before ++ v :: items)) stack)
  | [], before, v, stack, rest => rfl
  | item :: items, before, v, stack, rest => by
    rw [itemTokens, List.flatMap_cons]
    simp only [List.cons_append, List.append_assoc]
    show (item.tokens ++ _).foldlM State.step (.value (.array (before ++ [v]) :: stack)) = _
    rw [foldlM_tokens item, foldlM_items items, List.append_assoc]
    rfl

theorem foldlM_entries : ∀ (entries before : List (String × Json)) (name : String) (v : Json)
    (stack : List Frame) (rest : List Token),
    ((entryTokens entries).flatMap (.comma :: ·) ++ .closeObject :: rest).foldlM State.step
        (.read v (.object before name :: stack)) =
      rest.foldlM State.step (.read (.object (before ++ (name, v) :: entries)) stack)
  | [], before, name, v, stack, rest => rfl
  | (next, value) :: entries, before, name, v, stack, rest => by
    rw [entryTokens, List.flatMap_cons]
    simp only [List.cons_append, List.append_assoc]
    show (value.tokens ++ _).foldlM State.step
      (.value (.object (before ++ [(name, v)]) next :: stack)) = _
    rw [foldlM_tokens value, foldlM_entries entries, List.append_assoc]
    rfl

end

/-- The reader accepts the tokens of a value, and nothing else. -/
theorem read_eq_some_iff {tokens : List Token} {v : Json} :
    read tokens = some v ↔ tokens = v.tokens := by
  constructor
  · intro h
    unfold read at h
    split at h
    · rename_i value hrun
      cases h
      simpa [State.tokens, stackTokens] using (State.tokens_of_foldlM hrun).symm
    · cases h
  · rintro rfl
    have hrun := foldlM_tokens v [] []
    rw [List.append_nil] at hrun
    unfold read
    rw [hrun]
    rfl

/-! ## From text to tokens -/

def isBlank (c : Char) : Bool :=
  c = ' ' || c = '\t' || c = '\n' || c = '\r'

/-- The token that a character is by itself. -/
def mark? (c : Char) : Option Token :=
  [('[', .openArray), (']', .closeArray), ('\x7b', .openObject), ('\x7d', .closeObject),
    (':', .colon), (',', .comma)].lookup c

/-- The value of a word. -/
def word? (word : List Char) : Option Scalar :=
  if word = ['n', 'u', 'l', 'l'] then some .null
  else if word = ['t', 'r', 'u', 'e'] then some (.bool true)
  else if word = ['f', 'a', 'l', 's', 'e'] then some (.bool false)
  else if h : isNumber word then some (.number ⟨word, h⟩)
  else none

/-- Where the next character stands, with what has been read of a word or a string. -/
inductive Mode where
  | between
  | word (text : List Char)
  | quoted (text : List Char)
  -- in a string, directly after a backslash
  | escape (text : List Char)

/-- What a character between two words does: it may be a token, and it may begin something. -/
def start (c : Char) : List Token × Mode :=
  if isBlank c then ([], .between)
  else if c = '\x22' then ([], .quoted [])
  else
    match mark? c with
    | some token => ([token], .between)
    | none => ([], .word [c])

/-- Whether a character cannot belong to a word. -/
def endsWord (c : Char) : Bool :=
  isBlank c || c = '\x22' || (mark? c).isSome

def Mode.step : Mode → Char → Option (List Token × Mode)
  | between, c => some (start c)
  | word text, c =>
    if endsWord c then (word? text).map fun value => (.scalar value :: (start c).1, (start c).2)
    else some ([], .word (text ++ [c]))
  | quoted text, c =>
    if c = '\x22' then
      (Text.decode text).map fun cs => ([.scalar (.str (String.ofList cs))], .between)
    else some ([], if c = '\\' then .escape (text ++ [c]) else .quoted (text ++ [c]))
  | escape text, c => some ([], .quoted (text ++ [c]))

/-- Puts tokens in front of those that are still to be cut off. -/
def emit (tokens : List Token) : Option (List Token × Mode) → Option (List Token × Mode) :=
  Option.map fun (more, mode) => (tokens ++ more, mode)

/-- Cuts a text into tokens; the mode at its end may stand for one more. -/
def cut : Mode → List Char → Option (List Token × Mode)
  | mode, [] => some ([], mode)
  | mode, c :: cs => (mode.step c).bind fun (tokens, mode) => emit tokens (cut mode cs)

/-- The token that a text ends with. -/
def Mode.finish : Mode → Option (List Token)
  | between => some []
  | word text => (word? text).map fun value => [.scalar value]
  | quoted _ | escape _ => none

/-- The tokens of a text. -/
def tokens? (cs : List Char) : Option (List Token) :=
  (cut .between cs).bind fun (tokens, mode) => mode.finish.map (tokens ++ ·)

/-- Reads the text of a value. -/
def parse (text : String) : Option Json :=
  (tokens? text.toList).bind read

/-! ## Texts by their tokens -/

@[simp] theorem emit_nil (r : Option (List Token × Mode)) : emit [] r = r := by
  cases r <;> rfl

@[simp] theorem emit_emit (xs ys : List Token) (r : Option (List Token × Mode)) :
    emit xs (emit ys r) = emit (xs ++ ys) r := by
  cases r with
  | none => rfl
  | some r => simp [emit]

theorem cut_cons {mode mode' : Mode} {c : Char} {tokens : List Token}
    (h : mode.step c = some (tokens, mode')) (cs : List Char) :
    cut mode (c :: cs) = emit tokens (cut mode' cs) := by
  rw [cut, h, Option.bind_some]

/-- The text is cut into the tokens, if a character follows that cannot belong to a word. -/
def Spells (cs : List Char) (tokens : List Token) : Prop :=
  ∀ c rest, endsWord c = true →
    cut .between (cs ++ c :: rest) = emit tokens (cut .between (c :: rest))

/-- Inside a string, the text is passed over. -/
def Passes (cs : List Char) : Prop :=
  ∀ text rest, cut (.quoted text) (cs ++ rest) = cut (.quoted (text ++ cs)) rest

theorem Passes.append {xs ys : List Char} (hx : Passes xs) (hy : Passes ys) :
    Passes (xs ++ ys) := by
  intro text rest
  rw [List.append_assoc, hx, hy, List.append_assoc]

theorem passes_plain {c : Char} (hquote : c ≠ '\x22') (hback : c ≠ '\\') : Passes [c] := by
  intro text rest
  have hstep : (Mode.quoted text).step c = some ([], .quoted (text ++ [c])) := by
    simp [Mode.step, hquote, hback]
  rw [List.singleton_append, cut_cons hstep, emit_nil]

theorem passes_escape (c : Char) : Passes ['\\', c] := by
  intro text rest
  have hback : (Mode.quoted text).step '\\' = some ([], .escape (text ++ ['\\'])) := rfl
  have hstep : (Mode.escape (text ++ ['\\'])).step c = some ([], .quoted (text ++ ['\\', c])) := by
    simp [Mode.step]
  rw [List.cons_append, cut_cons hback, emit_nil, List.singleton_append, cut_cons hstep, emit_nil]

theorem passes_hexDigits (width n : Nat) : Passes (Text.hexDigits width n) := by
  have hdigit : ∀ d : Fin 16, Nat.digitChar d ≠ '\x22' ∧ Nat.digitChar d ≠ '\\' := by decide
  induction width generalizing n with
  | zero =>
    intro text rest
    rw [Text.hexDigits, List.append_nil]
    rfl
  | succ width ih =>
    have hd := hdigit ⟨n % 16, Nat.mod_lt n (by decide)⟩
    exact (ih (n / 16)).append (passes_plain hd.1 hd.2)

theorem passes_escapeUnit (n : Nat) : Passes (Text.escapeUnit n) :=
  (passes_escape 'u').append (passes_hexDigits 4 n)

theorem passes_of_spelling {c : Char} {xs : List Char} (h : Text.Spelling c xs) : Passes xs := by
  cases h with
  | short letter => exact passes_escape letter
  | unit => exact passes_escapeUnit _
  | pair => exact (passes_escapeUnit _).append (passes_escapeUnit _)
  | plain hquote hback => exact passes_plain hquote hback

theorem passes_encode (cs : List Char) : Passes (Text.encode cs) := by
  induction cs with
  | nil =>
    intro text rest
    rw [Text.encode, List.flatMap_nil, List.append_nil]
    rfl
  | cons c cs ih => exact (passes_of_spelling (Text.spelling_encodeChar c)).append ih

/-- A literal is one token, whatever its characters and whatever follows it. -/
theorem cut_literal (s : String) (rest : List Char) :
    cut .between ((Text.literal s).toList ++ rest) =
      emit [.scalar (.str s)] (cut .between rest) := by
  have hopen : Mode.between.step '\x22' = some ([], .quoted []) := rfl
  have hclose : (Mode.quoted (Text.encode s.toList)).step '\x22' =
      some ([.scalar (.str s)], .between) := by
    simp [Mode.step, Text.decode_encode]
  have htext : (Text.literal s).toList ++ rest =
      '\x22' :: (Text.encode s.toList ++ '\x22' :: rest) := by
    simp [Text.literal]
  rw [htext, cut_cons hopen, emit_nil, passes_encode, List.nil_append, cut_cons hclose]

theorem spells_literal (s : String) : Spells (Text.literal s).toList [.scalar (.str s)] :=
  fun c rest _ => cut_literal s (c :: rest)

/-- A word ends before a character that cannot belong to it. -/
theorem cut_word {text : List Char} {value : Scalar} (hword : word? text = some value) {c : Char}
    (hc : endsWord c = true) (rest : List Char) :
    cut (.word text) (c :: rest) = emit [.scalar value] (cut .between (c :: rest)) := by
  have hstep : (Mode.word text).step c = some (.scalar value :: (start c).1, (start c).2) := by
    simp [Mode.step, hc, hword]
  have hbetween : Mode.between.step c = some ((start c).1, (start c).2) := rfl
  rw [cut_cons hstep, cut_cons hbetween, emit_emit]
  rfl

theorem spells_bool (b : Bool) :
    Spells (if b then "true" else "false").toList [.scalar (.bool b)] := by
  intro c rest hc
  cases b with
  | true =>
    show cut .between ('t' :: 'r' :: 'u' :: 'e' :: c :: rest) = _
    iterate 4 rw [cut_cons rfl, emit_nil]
    exact cut_word rfl hc rest
  | false =>
    show cut .between ('f' :: 'a' :: 'l' :: 's' :: 'e' :: c :: rest) = _
    iterate 5 rw [cut_cons rfl, emit_nil]
    exact cut_word rfl hc rest

theorem spells_nil : Spells [] [] :=
  fun _ _ _ => (emit_nil _).symm

/-- One text after the other, with a comma and a blank between them. -/
theorem Spells.comma {xs ys : List Char} {txs tys : List Token} (hx : Spells xs txs)
    (hy : Spells ys tys) : Spells (xs ++ ',' :: ' ' :: ys) (txs ++ .comma :: tys) := by
  intro c rest hc
  have hcomma : Mode.between.step ',' = some ([.comma], .between) := rfl
  have hblank : Mode.between.step ' ' = some ([], .between) := rfl
  rw [List.append_assoc, List.cons_append, hx ',' _ rfl, List.cons_append, cut_cons hcomma,
    cut_cons hblank, hy c rest hc]
  simp

/-- A key and a value, with a colon and a blank between them. -/
theorem Spells.entry {key : String} {xs : List Char} {txs : List Token} (hx : Spells xs txs) :
    Spells ((Text.literal key).toList ++ ':' :: ' ' :: xs)
      (.scalar (.str key) :: .colon :: txs) := by
  intro c rest hc
  have hcolon : Mode.between.step ':' = some ([.colon], .between) := rfl
  have hblank : Mode.between.step ' ' = some ([], .between) := rfl
  rw [List.append_assoc, cut_literal, List.cons_append, List.cons_append, cut_cons hcolon,
    cut_cons hblank, hx c rest hc]
  simp

theorem Spells.braces {xs : List Char} {txs : List Token} (hx : Spells xs txs) :
    Spells ('\x7b' :: xs ++ ['\x7d']) (.openObject :: txs ++ [.closeObject]) := by
  intro c rest hc
  have hopen : Mode.between.step '\x7b' = some ([.openObject], .between) := rfl
  have hclose : Mode.between.step '\x7d' = some ([.closeObject], .between) := rfl
  show cut .between ('\x7b' :: (xs ++ ['\x7d'] ++ c :: rest)) = _
  rw [cut_cons hopen, List.append_assoc, List.singleton_append, hx '\x7d' _ rfl, cut_cons hclose]
  simp

theorem cut_append (mode : Mode) (xs ys : List Char) :
    cut mode (xs ++ ys) = (cut mode xs).bind fun (tokens, mode) => emit tokens (cut mode ys) := by
  induction xs generalizing mode with
  | nil => exact (emit_nil _).symm
  | cons c xs ih =>
    rw [List.cons_append, cut, cut]
    cases mode.step c with
    | none => rfl
    | some result =>
      simp only [Option.bind_some, ih]
      cases cut result.2 xs with
      | none => rfl
      | some more => simp [emit, Function.comp_def]

/-- A blank behind a text ends its last word as the end of the text does. -/
theorem Mode.finish_of_cut {mode : Mode} {tokens : List Token}
    (h : cut mode [' '] = some (tokens, .between)) : mode.finish = some tokens := by
  cases mode with
  | between =>
    cases h
    rfl
  | word text =>
    have hstep : (Mode.word text).step ' ' =
        (word? text).map fun value => ([.scalar value], .between) := rfl
    rw [cut, hstep] at h
    cases hword : word? text with
    | none =>
      rw [hword] at h
      cases h
    | some value =>
      rw [hword] at h
      cases h
      simp [finish, hword]
  | quoted text | escape text => cases h

theorem tokens?_of_spells {cs : List Char} {tokens : List Token} (h : Spells cs tokens) :
    tokens? cs = some tokens := by
  -- with a blank behind it the text has its tokens, so the last of them is what the text ends with
  have hblank : cut .between (cs ++ [' ']) = some (tokens ++ [], .between) := h ' ' [] rfl
  rw [cut_append, List.append_nil] at hblank
  obtain ⟨⟨before, mode⟩, hcut, hrest⟩ := Option.bind_eq_some_iff.1 hblank
  obtain ⟨⟨last, mode'⟩, hlast, heq⟩ := Option.map_eq_some_iff.1 hrest
  cases heq
  rw [tokens?, hcut, Option.bind_some]
  show mode.finish.map (before ++ ·) = _
  rw [Mode.finish_of_cut hlast, Option.map_some]

theorem parse_of_spells {text : String} {v : Json} (h : Spells text.toList v.tokens) :
    parse text = some v := by
  rw [parse, tokens?_of_spells h, Option.bind_some]
  exact read_eq_some_iff.2 rfl

-- Nothing is read from a text that is not quite JSON.
example : ["", "[1,]", "[1 2]", "[01]", "[] []", "truth", "\x22\\x\x22", "\x22\n\x22",
    "\x7ba: 1\x7d", "\x7b\x22a\x22 1\x7d"].all (fun text => (parse text).isNone) = true := by
  decide

end Json

end Hyperscript
