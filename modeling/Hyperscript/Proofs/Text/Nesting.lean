import Mathlib.Data.List.TakeWhile
import Hyperscript.Script.Layout
import Hyperscript.Proofs.Text.Quiet

/-!
# Nesting of brackets

A text is scanned with a stack of the closing brackets that are still to come.  Inside quotes
nothing counts but the end of the quotes, and a backslash there takes the next character with it.

`Turns a s b` says that scanning `s` outside quotes takes the stack `a` to the stack `b`.  A text is
`Closed` if it takes the empty stack back to itself.  Scanning never looks below what a text itself
takes off the stack, so these statements hold on top of any other brackets, and they compose.
-/

namespace Hyperscript.Nesting

/-! ## The scanner -/

inductive Bracket where
  | round
  | square
  | curly
  deriving DecidableEq

inductive Quote where
  | single
  | double
  | back
  deriving DecidableEq

def Quote.char : Quote → Char
  | single => '\x27'
  | double => '\x22'
  | back => '\x60'

/-- What a character is for the scanner. -/
inductive Sign where
  | quote (q : Quote)
  | opener (b : Bracket)
  | closer (b : Bracket)
  | plain
  deriving DecidableEq

def sign (c : Char) : Sign :=
  if c = '\x27' then .quote .single
  else if c = '\x22' then .quote .double
  else if c = '\x60' then .quote .back
  else if c = '(' then .opener .round
  else if c = ')' then .closer .round
  else if c = '[' then .opener .square
  else if c = ']' then .closer .square
  else if c = '\x7b' then .opener .curly
  else if c = '\x7d' then .closer .curly
  else .plain

/-- Where the next character stands: in code, in a string between quotes of one kind, or there after
a backslash. -/
inductive Mode where
  | code
  | quoted (q : Quote)
  | escaped (q : Quote)
  deriving DecidableEq

structure State where
  /-- The open brackets, the innermost first. -/
  stack : List Bracket
  mode : Mode
  deriving DecidableEq

/-- Takes a bracket off the stack; it has to be the innermost one. -/
def pop (b : Bracket) : List Bracket → Option State
  | [] => none
  | top :: stack => if b = top then some ⟨stack, .code⟩ else none

/-- Reads a character. -/
def step : State → Char → Option State
  | ⟨stack, .code⟩, c =>
    match sign c with
    | .quote q => some ⟨stack, .quoted q⟩
    | .opener b => some ⟨b :: stack, .code⟩
    | .closer b => pop b stack
    | .plain => some ⟨stack, .code⟩
  | ⟨stack, .quoted q⟩, c =>
    if c = '\\' then some ⟨stack, .escaped q⟩
    else if sign c = .quote q then some ⟨stack, .code⟩
    else some ⟨stack, .quoted q⟩
  | ⟨stack, .escaped q⟩, _ => some ⟨stack, .quoted q⟩

def run (s : State) (cs : List Char) : Option State :=
  cs.foldlM step s

theorem run_nil (s : State) : run s [] = some s := rfl

theorem run_cons (s : State) (c : Char) (cs : List Char) :
    run s (c :: cs) = step s c >>= (run · cs) := by
  rw [run, List.foldlM_cons]
  rfl

theorem run_append (s : State) (xs ys : List Char) :
    run s (xs ++ ys) = run s xs >>= (run · ys) := by
  rw [run, List.foldlM_append]
  rfl

theorem run_append_of_some {s t : State} {xs : List Char} (h : run s xs = some t) (ys : List Char) :
    run s (xs ++ ys) = run t ys := by
  rw [run_append, h]
  rfl

theorem pop_frame {a b : List Bracket} {m : Mode} {top : Bracket} (h : pop top a = some ⟨b, m⟩)
    (below : List Bracket) : pop top (a ++ below) = some ⟨b ++ below, m⟩ := by
  cases a with
  | nil => cases h
  | cons next a =>
    simp only [pop] at h
    split at h
    · rename_i htop
      cases h
      simp [pop, htop]
    · cases h

/-- What stands below on the stack is left alone. -/
theorem step_frame {a b : List Bracket} {m m' : Mode} {c : Char}
    (h : step ⟨a, m⟩ c = some ⟨b, m'⟩) (below : List Bracket) :
    step ⟨a ++ below, m⟩ c = some ⟨b ++ below, m'⟩ := by
  cases m with
  | code =>
    simp only [step] at h ⊢
    cases hc : sign c with
    | quote q | opener top | plain =>
      rw [hc] at h
      cases h
      rfl
    | closer top =>
      rw [hc] at h
      exact pop_frame h below
  | quoted q =>
    simp only [step] at h ⊢
    by_cases hback : c = '\\'
    · rw [if_pos hback] at h ⊢
      cases h
      rfl
    · rw [if_neg hback] at h ⊢
      by_cases hquote : sign c = .quote q
      · rw [if_pos hquote] at h ⊢
        cases h
        rfl
      · rw [if_neg hquote] at h ⊢
        cases h
        rfl
  | escaped q =>
    cases h
    rfl

theorem run_frame {a b : List Bracket} {m m' : Mode} {cs : List Char}
    (h : run ⟨a, m⟩ cs = some ⟨b, m'⟩) (below : List Bracket) :
    run ⟨a ++ below, m⟩ cs = some ⟨b ++ below, m'⟩ := by
  induction cs generalizing a m with
  | nil =>
    cases h
    rfl
  | cons c cs ih =>
    rw [run_cons] at h ⊢
    cases hc : step ⟨a, m⟩ c with
    | none =>
      rw [hc] at h
      cases h
    | some s =>
      rw [hc] at h
      rw [step_frame hc]
      exact ih h

/-- Scanning the text outside quotes takes the stack `a` to `b`. -/
def Turns (a : List Bracket) (s : String) (b : List Bracket) : Prop :=
  run ⟨a, .code⟩ s.toList = some ⟨b, .code⟩

instance (a : List Bracket) (s : String) (b : List Bracket) : Decidable (Turns a s b) :=
  inferInstanceAs (Decidable (run _ _ = some _))

/-- The form in which a literal is scanned by evaluation: its characters are given. -/
theorem turns_ofList {a b : List Bracket} {cs : List Char}
    (h : run ⟨a, .code⟩ cs = some ⟨b, .code⟩) : Turns a (String.ofList cs) b := by
  rw [Turns, String.toList_ofList]
  exact h

/-- All brackets and quotes that the text opens are closed again, in order, and no others. -/
def Closed (s : String) : Prop :=
  Turns [] s []

instance (s : String) : Decidable (Closed s) :=
  inferInstanceAs (Decidable (Turns [] s []))

section Turns

variable {a b c : List Bracket} {s t : String}

theorem Turns.append (hs : Turns a s b) (ht : Turns b t c) : Turns a (s ++ t) c := by
  show run ⟨a, .code⟩ (s ++ t).toList = some ⟨c, .code⟩
  rw [String.toList_append, run_append_of_some hs]
  exact ht

/-- A closed text may stand anywhere outside quotes. -/
theorem Closed.turns (hs : Closed s) (a : List Bracket) : Turns a s a :=
  run_frame hs a

theorem Turns.append_closed (hs : Turns a s b) (ht : Closed t) : Turns a (s ++ t) b :=
  hs.append (ht.turns b)

theorem Closed.append_turns (hs : Closed s) (ht : Turns a t b) : Turns a (s ++ t) b :=
  (hs.turns a).append ht

theorem Closed.append (hs : Closed s) (ht : Closed t) : Closed (s ++ t) :=
  Turns.append hs ht

/-- A closed text between brackets. -/
theorem Turns.wrap (hs : Turns a s b) {code : String} (hcode : Closed code) (ht : Turns b t c) :
    Turns a (s ++ code ++ t) c :=
  (hs.append_closed hcode).append ht

theorem closed_empty : Closed "" := rfl

theorem closed_intercalate {sep : String} (hsep : Closed sep) {texts : List String}
    (h : ∀ text ∈ texts, Closed text) : Closed (sep.intercalate texts) := by
  induction texts with
  | nil =>
    rw [String.intercalate_nil]
    exact closed_empty
  | cons text texts ih =>
    have hfirst := h text (List.mem_cons_self ..)
    have hothers := ih fun other hmem => h other (List.mem_cons_of_mem text hmem)
    cases texts with
    | nil => simpa using hfirst
    | cons next texts =>
      rw [String.intercalate_cons_cons]
      exact (hfirst.append hsep).append hothers

end Turns

/-! ## Plain characters -/

/-- A character that is no quote, no bracket and no backslash: it changes nothing in code, and it
does not end a string. -/
def isPlain (c : Char) : Bool :=
  sign c = .plain && c ≠ '\\'

theorem sign_eq_plain {c : Char} (h : isPlain c = true) : sign c = .plain := by
  simp [isPlain] at h
  exact h.1

theorem ne_backslash {c : Char} (h : isPlain c = true) : c ≠ '\\' := by
  simp [isPlain] at h
  exact h.2

theorem step_code_of_isPlain {c : Char} (h : isPlain c = true) (stack : List Bracket) :
    step ⟨stack, .code⟩ c = some ⟨stack, .code⟩ := by
  simp only [step, sign_eq_plain h]

theorem step_quoted_of_isPlain {c : Char} (h : isPlain c = true) (stack : List Bracket)
    (q : Quote) : step ⟨stack, .quoted q⟩ c = some ⟨stack, .quoted q⟩ := by
  simp [step, sign_eq_plain h, ne_backslash h]

theorem closed_of_isPlain {s : String} (h : ∀ c ∈ s.toList, isPlain c = true) : Closed s := by
  show run ⟨[], .code⟩ s.toList = some ⟨[], .code⟩
  generalize s.toList = cs at h
  induction cs with
  | nil => rfl
  | cons c cs ih =>
    rw [run_cons, step_code_of_isPlain (h c (List.mem_cons_self ..))]
    exact ih fun d hd => h d (List.mem_cons_of_mem c hd)

/-- The characters that are not plain. -/
def special : List Char :=
  ['\x27', '\x22', '\x60', '(', ')', '[', ']', '\x7b', '\x7d', '\\']

theorem isPlain_of_not_mem {c : Char} (h : c ∉ special) : isPlain c = true := by
  simp only [special, List.mem_cons, List.not_mem_nil, or_false, not_or] at h
  simp [isPlain, sign, h]

/-- A class of characters without the special ones. -/
theorem isPlain_of_class {p : Char → Bool} (hp : special.any p = false) {c : Char}
    (h : p c = true) : isPlain c = true := by
  apply isPlain_of_not_mem
  intro hmem
  exact List.any_eq_false.1 hp c hmem h

theorem closed_toString (n : Nat) : Closed (toString n) := by
  apply closed_of_isPlain
  intro c hc
  have hdigits : (toString n).toList = Nat.toDigits 10 n := String.toList_ofList
  rw [hdigits] at hc
  have hdigit := Nat.isDigit_of_mem_toDigits (by decide) (by decide) hc
  exact isPlain_of_class (by decide) hdigit

theorem closed_fresh (k : Nat) : Closed (ArrayName.fresh k).text := by
  have hname : Closed ("n" ++ toString k ++ "Child") :=
    (Closed.append (by decide) (closed_toString k)).append (by decide)
  exact hname

/-- Plain characters neither start nor end a string. -/
theorem eq_of_step_plain {s : State} {c : Char} {b : List Bracket} (hc : isPlain c = true)
    (h : step s c = some ⟨b, .code⟩) : s = ⟨b, .code⟩ := by
  obtain ⟨stack, mode⟩ := s
  cases mode with
  | code =>
    rw [step_code_of_isPlain hc] at h
    exact Option.some.inj h
  | quoted q =>
    rw [step_quoted_of_isPlain hc] at h
    cases h
  | escaped q => cases h

/-- Characters may be dropped from both ends of a text where they do not move a scanner from its
first state, and do not bring it to its last one. -/
theorem foldlM_trimWhere {σ : Type} {step : σ → Char → Option σ} {p : Char → Bool} {s t : σ}
    (hfirst : ∀ c, p c = true → step s c = some s)
    (hlast : ∀ u c, p c = true → step u c = some t → u = t) {cs : List Char}
    (h : cs.foldlM step s = some t) : (Text.trimWhere p cs).foldlM step s = some t := by
  have hfront : (cs.dropWhile p).foldlM step s = some t := by
    clear hlast
    induction cs with
    | nil => exact h
    | cons c cs ih =>
      rw [List.dropWhile_cons]
      split
      · rename_i hc
        rw [List.foldlM_cons, hfirst c hc] at h
        exact ih h
      · exact h
  have hback : ∀ (u : σ) (ys : List Char), (∀ c ∈ ys, p c = true) →
      ys.foldlM step u = some t → u = t := by
    intro u ys hys hrun
    induction ys generalizing u with
    | nil => exact Option.some.inj hrun
    | cons c ys ih =>
      rw [List.foldlM_cons] at hrun
      obtain ⟨next, hstep, hrun⟩ := Option.bind_eq_some_iff.1 hrun
      rw [ih next (fun d hd => hys d (List.mem_cons_of_mem c hd)) hrun] at hstep
      exact hlast u c (hys c (List.mem_cons_self ..)) hstep
  -- what is dropped at the end is what is dropped from the reversed text
  have hsplit : cs.dropWhile p = Text.trimWhere p cs ++
      ((cs.dropWhile p).reverse.takeWhile p).reverse := by
    unfold Text.trimWhere
    rw [← List.reverse_append, List.takeWhile_append_dropWhile, List.reverse_reverse]
  rw [hsplit, List.foldlM_append] at hfront
  obtain ⟨u, htrim, hrest⟩ := Option.bind_eq_some_iff.1 hfront
  rw [htrim, hback u _ (fun c hc => List.mem_takeWhile_imp (List.mem_reverse.1 hc)) hrest]

/-- Plain characters may be dropped from both ends of a text. -/
theorem run_trimWhere {p : Char → Bool} (hp : ∀ c, p c = true → isPlain c = true)
    {a b : List Bracket} {cs : List Char} (h : run ⟨a, .code⟩ cs = some ⟨b, .code⟩) :
    run ⟨a, .code⟩ (Text.trimWhere p cs) = some ⟨b, .code⟩ :=
  foldlM_trimWhere (fun c hc => step_code_of_isPlain (hp c hc) a)
    (fun _ c hc => eq_of_step_plain (hp c hc)) h

theorem Closed.trim {s : String} (h : Closed s) : Closed (Text.trim s) := by
  show run ⟨[], .code⟩ (Text.trim s).toList = some ⟨[], .code⟩
  rw [Text.trim, String.toList_ofList]
  exact run_trimWhere (fun _ => isPlain_of_class (by decide)) h

/-! ## Quoting -/

/-- Inside quotes of the kind `q`, the text leads back to where it started. -/
def Inert (q : Quote) (cs : List Char) : Prop :=
  run ⟨[], .quoted q⟩ cs = some ⟨[], .quoted q⟩

instance (q : Quote) (cs : List Char) : Decidable (Inert q cs) :=
  inferInstanceAs (Decidable (run _ _ = some _))

theorem Inert.append {q : Quote} {xs ys : List Char} (hx : Inert q xs) (hy : Inert q ys) :
    Inert q (xs ++ ys) := by
  rw [Inert, run_append_of_some hx]
  exact hy

theorem inert_flatMap {q : Quote} {spell : Char → List Char} (h : ∀ c, Inert q (spell c))
    (cs : List Char) : Inert q (cs.flatMap spell) := by
  induction cs with
  | nil => rfl
  | cons c cs ih => exact (h c).append ih

theorem inert_singleton {q : Quote} {c : Char} (hback : c ≠ '\\') (hquote : sign c ≠ .quote q) :
    Inert q [c] := by
  simp [Inert, run_cons, run_nil, step, hback, hquote]

/-- A backslash takes any character with it. -/
theorem inert_escape (q : Quote) (c : Char) : Inert q ['\\', c] := rfl

/-- Text between quotes, spelled so that it does not end them. -/
theorem closed_quoted {q : Quote} {quote : Char} (hsign : sign quote = .quote q)
    (hback : quote ≠ '\\') {cs : List Char} (h : Inert q cs) :
    Closed (String.ofList (quote :: cs ++ [quote])) := by
  have hopen : run ⟨[], .code⟩ [quote] = some ⟨[], .quoted q⟩ := by
    simp [run_cons, run_nil, step, hsign]
  have hclose : run ⟨[], .quoted q⟩ [quote] = some ⟨[], .code⟩ := by
    simp [run_cons, run_nil, step, hsign, hback]
  show run ⟨[], .code⟩ (String.ofList ([quote] ++ cs ++ [quote])).toList = some ⟨[], .code⟩
  rw [String.toList_ofList, List.append_assoc, run_append_of_some hopen, run_append_of_some h,
    hclose]

theorem inert_hexDigits (q : Quote) (width n : Nat) : Inert q (Text.hexDigits width n) := by
  have hdigit : ∀ d : Fin 16, isPlain (Nat.digitChar d) = true := by decide
  induction width generalizing n with
  | zero => rfl
  | succ width ih =>
    have hplain := hdigit ⟨n % 16, Nat.mod_lt n (by decide)⟩
    refine (ih (n / 16)).append (inert_singleton (ne_backslash hplain) ?_)
    rw [sign_eq_plain hplain]
    nofun

theorem inert_escapeUnit (q : Quote) (n : Nat) : Inert q (Text.escapeUnit n) :=
  (inert_escape q 'u').append (inert_hexDigits q 4 n)

theorem eq_of_sign_quote {c : Char} {q : Quote} (h : sign c = .quote q) : c = q.char := by
  by_cases hmem : c ∈ special
  · have hall : special.all (fun d => decide (sign d = .quote q → d = q.char)) = true := by
      cases q <;> decide
    exact of_decide_eq_true (List.all_eq_true.1 hall c hmem) h
  · rw [sign_eq_plain (isPlain_of_not_mem hmem)] at h
    cases h

theorem inert_ite {q : Quote} {p : Prop} [Decidable p] {xs ys : List Char}
    (hx : p → Inert q xs) (hy : ¬p → Inert q ys) : Inert q (if p then xs else ys) := by
  by_cases h : p
  · rw [if_pos h]
    exact hx h
  · rw [if_neg h]
    exact hy h

theorem inert_encodeChar (c : Char) : Inert .double (Text.encodeChar c) := by
  unfold Text.encodeChar
  -- the characters with an escape of their own, among them the quote and the backslash
  refine inert_ite (fun _ => inert_escape _ _) fun hquote => ?_
  refine inert_ite (fun _ => inert_escape _ _) fun hback => ?_
  refine inert_ite (fun _ => inert_escape _ _) fun _ => ?_
  refine inert_ite (fun _ => inert_escape _ _) fun _ => ?_
  refine inert_ite (fun _ => inert_escape _ _) fun _ => ?_
  refine inert_ite (fun _ => inert_escape _ _) fun _ => ?_
  refine inert_ite (fun _ => inert_escape _ _) fun _ => ?_
  -- all others are units, or stand for themselves
  refine inert_ite (fun _ => inert_escapeUnit _ _) fun _ => ?_
  refine inert_ite (fun _ => ?_) fun _ => ?_
  · exact inert_singleton hback fun h => hquote (eq_of_sign_quote h)
  · exact inert_ite (fun _ => inert_escapeUnit _ _) fun _ =>
      (inert_escapeUnit _ _).append (inert_escapeUnit _ _)

theorem inert_encodeNameChar (c : Char) : Inert .single (Text.encodeNameChar c) := by
  unfold Text.encodeNameChar
  refine inert_ite (fun _ => inert_escape _ _) fun hback => ?_
  refine inert_ite (fun _ => inert_escape _ _) fun hquote => ?_
  exact inert_singleton hback fun h => hquote (eq_of_sign_quote h)

theorem closed_literal (s : String) : Closed (Text.literal s) :=
  closed_quoted (by decide) (by decide) (inert_flatMap inert_encodeChar s.toList)

theorem closed_nameLiteral (s : String) : Closed (Text.nameLiteral s) :=
  closed_quoted (by decide) (by decide) (inert_flatMap inert_encodeNameChar s.toList)

/-! ## Lines -/

section Lines

variable {a b c : List Bracket} {pretty : Bool}

/-- Scanning the rendered lines takes the stack `a` to `b`. -/
def LinesTurn (pretty : Bool) (a : List Bracket) (lines : List Line) (b : List Bracket) : Prop :=
  Turns a (Line.renderAll pretty lines) b

theorem LinesTurn.append {xs ys : List Line} (hx : LinesTurn pretty a xs b)
    (hy : LinesTurn pretty b ys c) : LinesTurn pretty a (xs ++ ys) c := by
  unfold LinesTurn
  rw [Line.renderAll_append]
  exact Turns.append hx hy

theorem LinesTurn.frame {lines : List Line} (h : LinesTurn pretty [] lines []) (a : List Bracket) :
    LinesTurn pretty a lines a :=
  Closed.turns h a

theorem linesTurn_nil : LinesTurn pretty a [] a :=
  closed_empty.turns a

/-- What a line is indented by. -/
def margin (pretty : Bool) (indent : Int) : List Char :=
  if pretty then List.replicate indent.toNat ' ' else []

theorem toList_render (pretty : Bool) (line : Line) :
    (line.render pretty).toList = margin pretty line.indent ++ line.code.toList ++ ['\n'] := by
  unfold Line.render margin
  cases pretty <;> simp

theorem eq_space_of_mem_margin {indent : Int} {c : Char} (h : c ∈ margin pretty indent) :
    c = ' ' := by
  unfold margin at h
  split at h
  · exact List.eq_of_mem_replicate h
  · cases h

/-- Outside quotes or inside them, a margin changes nothing. -/
theorem run_margin {s : State} (hs : ∀ q, s.mode ≠ .escaped q) (pretty : Bool) (indent : Int)
    (cs : List Char) : run s (margin pretty indent ++ cs) = run s cs := by
  have hall : ∀ m : List Char, (∀ c ∈ m, c = ' ') → run s (m ++ cs) = run s cs := by
    intro m hm
    induction m with
    | nil => rfl
    | cons c m ih =>
      have hspace : step s c = some s := by
        obtain ⟨stack, mode⟩ := s
        rw [hm c (List.mem_cons_self ..)]
        cases mode with
        | code => rfl
        | quoted q => exact step_quoted_of_isPlain (by decide) stack q
        | escaped q => exact absurd rfl (hs q)
      rw [List.cons_append, run_cons, hspace]
      exact ih fun d hd => hm d (List.mem_cons_of_mem c hd)
  exact hall _ fun c hc => eq_space_of_mem_margin hc

theorem linesTurn_singleton {code : String} (indent : Int) (h : Turns a code b) :
    LinesTurn pretty a [⟨indent, code⟩] b := by
  show run ⟨a, .code⟩ (Line.renderAll pretty [⟨indent, code⟩]).toList = some ⟨b, .code⟩
  rw [Line.renderAll, List.map_singleton, String.join_cons, String.join_nil, String.append_empty,
    toList_render, List.append_assoc,
    run_margin (s := ⟨a, .code⟩) (fun _ hmode => Mode.noConfusion hmode), run_append_of_some h]
  rfl

theorem LinesTurn.cons {code : String} {lines : List Line} (indent : Int) (h : Turns a code b)
    (hrest : LinesTurn pretty b lines c) : LinesTurn pretty a (⟨indent, code⟩ :: lines) c := by
  rw [← List.singleton_append]
  exact (linesTurn_singleton indent h).append hrest

/-- A block of closed lines between the line that opens it and the one that closes it. -/
theorem LinesTurn.block {first last : String} {body : List Line} (indent : Int)
    (hfirst : Turns a first b) (hbody : LinesTurn pretty [] body []) (hlast : Turns b last c) :
    LinesTurn pretty a (⟨indent, first⟩ :: body ++ [⟨indent, last⟩]) c :=
  (LinesTurn.cons indent hfirst (hbody.frame b)).append (linesTurn_singleton indent hlast)

/-! ### Code of several lines -/

/-- A line feed is read anywhere, and no backslash reaches beyond it. -/
theorem step_lineFeed (s : State) :
    ∃ t, step s '\n' = some t ∧ ∀ q, t.mode ≠ .escaped q := by
  obtain ⟨stack, mode⟩ := s
  cases mode with
  | code => exact ⟨_, step_code_of_isPlain (by decide) stack, nofun⟩
  | quoted q => exact ⟨_, step_quoted_of_isPlain (by decide) stack q, nofun⟩
  | escaped q => exact ⟨_, rfl, nofun⟩

/-- Laying out code in lines adds a margin after every line feed, and this changes nothing. -/
theorem run_layout (pretty : Bool) (indent : Int) (s : State) (cs : List Char) :
    ∃ first others, Text.cut '\n' cs = first :: others ∧
      run s (first ++ '\n' :: others.flatMap fun piece => margin pretty indent ++ piece ++ ['\n']) =
        run s (cs ++ ['\n']) := by
  induction cs generalizing s with
  | nil => exact ⟨[], [], rfl, rfl⟩
  | cons c cs ih =>
    by_cases hc : c = '\n'
    · obtain ⟨t, ht, hmode⟩ := step_lineFeed s
      obtain ⟨first, others, hcut, hrun⟩ := ih t
      have hcut' : Text.cut '\n' (c :: cs) = [] :: first :: others := by
        rw [Text.cut, if_pos hc, hcut]
      refine ⟨[], first :: others, hcut', ?_⟩
      rw [List.nil_append, List.cons_append, run_cons, run_cons, hc, ht]
      show run t (List.flatMap _ (first :: others)) = run t (cs ++ ['\n'])
      rw [List.flatMap_cons, List.append_assoc, List.append_assoc, run_margin hmode]
      exact hrun
    · have hcut' : ∀ {first others}, Text.cut '\n' cs = first :: others →
          Text.cut '\n' (c :: cs) = (c :: first) :: others := by
        intro first others hcut
        rw [Text.cut, if_neg hc, hcut]
      cases hstep : step s c with
      | none =>
        obtain ⟨first, others, hcut, -⟩ := ih s
        refine ⟨c :: first, others, hcut' hcut, ?_⟩
        rw [List.cons_append, List.cons_append, run_cons, run_cons, hstep]
        rfl
      | some t =>
        obtain ⟨first, others, hcut, hrun⟩ := ih t
        refine ⟨c :: first, others, hcut' hcut, ?_⟩
        rw [List.cons_append, List.cons_append, run_cons, run_cons, hstep]
        exact hrun

theorem toList_renderAll (pretty : Bool) (indent : Int) (pieces : List (List Char)) :
    (Line.renderAll pretty ((pieces.map String.ofList).map (⟨indent, ·⟩))).toList =
      pieces.flatMap fun piece => margin pretty indent ++ piece ++ ['\n'] := by
  induction pieces with
  | nil => rfl
  | cons piece pieces ih =>
    rw [List.map_cons, List.map_cons, ← List.singleton_append, Line.renderAll_append,
      String.toList_append, ih, Line.renderAll, List.map_singleton, String.join_cons,
      String.join_nil, String.append_empty, toList_render, List.flatMap_cons,
      String.toList_ofList]

/-- Code of the template turns the stack as it does on one line. -/
theorem linesTurn_codeLines {code : String} (indent : Int) (h : Turns a code b) :
    LinesTurn pretty a ((Text.codeLines code).map (⟨indent, ·⟩)) b := by
  have htrim : run ⟨a, .code⟩ (Text.trimWhere (· == '\n') code.toList) = some ⟨b, .code⟩ :=
    run_trimWhere (fun _ => isPlain_of_class (p := (· == '\n')) (by decide)) h
  obtain ⟨first, others, hcut, hrun⟩ :=
    run_layout pretty indent ⟨a, .code⟩ (Text.trimWhere (· == '\n') code.toList)
  show run ⟨a, .code⟩ (Line.renderAll pretty _).toList = some ⟨b, .code⟩
  rw [Text.codeLines, toList_renderAll, hcut, List.flatMap_cons, List.append_assoc,
    List.append_assoc, run_margin (s := ⟨a, .code⟩) (by simp), List.singleton_append, hrun,
    run_append_of_some htrim]
  rfl

end Lines

/-! ## Expressions of the compiler -/

theorem closed_tagCode {options : Options} {name tag : String}
    (h : tagCode options (.str name) = .ok tag) : Closed tag := by
  rcases tagCode_cases h with ⟨hname, rfl⟩ | rfl
  · have hplain : Closed name := by
      apply closed_of_isPlain
      intro c hc
      have hclass : (c.isAlphanum || c = '_' || c = '$') = true := by
        unfold isConstructorName at hname
        cases hcs : name.toList with
        | nil =>
          rw [hcs] at hc
          cases hc
        | cons d cs =>
          rw [hcs] at hname hc
          rw [Bool.and_eq_true, List.all_eq_true] at hname
          rcases List.mem_cons.1 hc with rfl | hc
          · have hupper : c.isAlphanum = (c.isUpper || c.isLower || c.isDigit) := rfl
            simp [hupper, hname.1]
          · exact hname.2 c hc
      exact isPlain_of_class (p := fun c => c.isAlphanum || c = '_' || c = '$') (by decide) hclass
    exact hplain.append (by decide)
  · exact closed_literal name

theorem closed_reference (name : String) : Closed (Mixin.reference name) := by
  have hhead : Turns [] (Mixin.table ++ "[") [.square] := by decide
  exact hhead.wrap (closed_nameLiteral name) (by decide)

/-- Parentheses around an expression. -/
theorem closed_parens {code : String} (h : Closed code) : Closed ("(" ++ code ++ ")") :=
  Turns.wrap (b := [.round]) (by decide) h (by decide)

theorem closed_text {t : Interpolated} (h : ∀ span ∈ t.spans, Closed span.expr) :
    Closed t.code := by
  apply closed_intercalate (by decide)
  intro text htext
  obtain ⟨part, hpart, rfl⟩ := List.mem_map.1 htext
  cases part with
  | literal text => exact closed_literal text
  | span span =>
    apply closed_parens
    apply h
    simpa [Interpolated.parts, Interpolated.spans] using hpart

theorem closed_object {entries : List String} (h : ∀ entry ∈ entries, Closed entry) :
    Closed (Property.object entries) :=
  Turns.wrap (b := [.curly]) (by decide) (closed_intercalate (by decide) h) (by decide)

theorem closed_property {key value : String} (hvalue : Closed value) :
    Closed (Text.literal key ++ ": " ++ value) :=
  ((closed_literal key).append (by decide)).append hvalue

end Hyperscript.Nesting
