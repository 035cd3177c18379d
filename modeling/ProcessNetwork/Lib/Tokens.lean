import Mathlib.Data.List.Basic
import Mathlib.Tactic.SplitIfs

/-!
# Statements and words

A text whose quoting has been resolved: characters, spaces and the ends of statements.  A statement is its list of words, the
non-empty runs of characters between the spaces.  `statements` splits the text; the last statement is `finished` words and an
`openWord`, at which the text breaks off.  `eat` reads the text from the left with the words that are finished and the
one that is
not, and hands both to what is done at the end of the text (`eat_eq`).
-/

namespace ProcessNetwork

namespace Tokens

variable {α σ : Type*}

inductive Item (α : Type*)
  | char (a : α)
  | space
  | stop
  deriving DecidableEq

def text : List (Item α) → List α
  | [] => []
  | .char a :: l => a :: text l
  | _ :: l => text l

private theorem text_map_char (w : List α) : text (w.map .char) = w := by
  induction w with
  | nil => rfl
  | cons a w ih => rw [List.map_cons, text, ih]

private theorem space_notMem (w : List α) : Item.space ∉ w.map Item.char := by
  intro h
  obtain ⟨a, -, ha⟩ := List.mem_map.1 h
  cases ha

private theorem stop_notMem (w : List α) : Item.stop ∉ w.map Item.char := by
  intro h
  obtain ⟨a, -, ha⟩ := List.mem_map.1 h
  cases ha

/-- The list with the word, if it is one. -/
def ended (w : List α) : List (List α) := if w = [] then [] else [w]

/-- The statements one after the other, beginning with the words `ws` and the unfinished word `w`. -/
def eat (act : List (List α) → σ → Option σ) (atEnd : List (List α) → List α → σ → Option σ) :
    List (Item α) → List (List α) → List α → σ → Option σ
  | [], ws, w, d => atEnd ws w d
  | .char a :: l, ws, w, d => eat act atEnd l ws (w ++ [a]) d
  | .space :: l, ws, w, d => eat act atEnd l (ws ++ ended w) [] d
  | .stop :: l, ws, w, d => (act (ws ++ ended w) d).bind (eat act atEnd l [] [])

theorem eat_chars {act : List (List α) → σ → Option σ} {atEnd : List (List α) → List α → σ → Option σ} {l : List (Item α)}
    {w : List α} {ws : List (List α)} {d : σ} (w' : List α) :
    eat act atEnd (w'.map .char ++ l) ws w d = eat act atEnd l ws (w ++ w') d := by
  induction w' generalizing w with
  | nil => rw [List.map_nil, List.nil_append, List.append_nil]
  | cons a w' ih => rw [List.map_cons, List.cons_append, eat, ih, List.append_assoc, List.singleton_append]

private theorem ended_eq_filter [DecidableEq α] (w : List α) : ended w = [w].filter (· ≠ []) := by
  unfold ended
  by_cases h : w = []
  · rw [if_pos h, h]
    rfl
  · rw [if_neg h, List.filter_singleton, decide_eq_true h]
    rfl

section Splitting

variable [DecidableEq α] {act : List (List α) → σ → Option σ} {atEnd : List (List α) → List α → σ → Option σ}
  {l p : List (Item α)} {w : List α} {ws : List (List α)} {d : σ}

def words (l : List (Item α)) : List (List α) := ((l.splitOn .space).map text).filter (· ≠ [])

def statements (l : List (Item α)) : List (List (List α)) := (l.splitOn .stop).map words

/-- The text after the last end of a statement. -/
def lastStatement (l : List (Item α)) : List (Item α) := (l.splitOn .stop).getLastD []

/-- The words of the last statement that have a space after them. -/
def finished (l : List (Item α)) : List (List α) :=
  (((lastStatement l).splitOn .space).dropLast.map text).filter (· ≠ [])

/-- The characters after the last space and the last end of a statement. -/
def openWord (l : List (Item α)) : List α := text (((lastStatement l).splitOn .space).getLastD [])

private theorem words_chars (w : List α) : words (w.map .char) = ended w := by
  rw [words, List.splitOn_eq_singleton (space_notMem w), List.map_singleton, text_map_char, ended_eq_filter]

private theorem words_chars_append (w : List α) (l : List (Item α)) :
    words (w.map .char ++ .space :: l) = ended w ++ words l := by
  unfold words
  rw [List.splitOn_append_cons_self, List.splitOn_eq_singleton (space_notMem w), List.singleton_append, List.map_cons,
    text_map_char, ← List.singleton_append, List.filter_append, ended_eq_filter]

private theorem statements_ne_nil (l : List (Item α)) : statements l ≠ [] := fun h =>
  List.splitOn_ne_nil _ _ (List.map_eq_nil_iff.1 h)

/-! ### The last statement -/

theorem lastStatement_of_notMem (h : .stop ∉ l) : lastStatement l = l := by
  rw [lastStatement, List.splitOn_eq_singleton h]
  rfl

private theorem getLastD_cons_of_ne_nil {β : Type*} {x y : β} {xs : List β} (h : xs ≠ []) :
    (x :: xs).getLastD y = xs.getLastD y := by
  cases xs with
  | nil => exact absurd rfl h
  | cons z zs => rfl

private theorem lastStatement_stop (h : .stop ∉ p) : lastStatement (p ++ .stop :: l) = lastStatement l := by
  rw [lastStatement, List.splitOn_append_cons_self, List.splitOn_eq_singleton h, List.singleton_append,
    getLastD_cons_of_ne_nil (List.splitOn_ne_nil _ _)]
  rfl

private theorem words_eq (l : List (Item α)) :
    words l = ((l.splitOn .space).dropLast.map text).filter (· ≠ []) ++ ended (text ((l.splitOn .space).getLastD [])) := by
  have hne := List.splitOn_ne_nil Item.space l
  have hlast : (l.splitOn .space).getLastD [] = (l.splitOn .space).getLast hne := by
    rw [List.getLastD_eq_getLast?, List.getLast?_eq_getLast_of_ne_nil hne, Option.getD_some]
  rw [words, hlast, ended_eq_filter, ← List.filter_append, ← List.map_singleton (f := text), ← List.map_append,
    List.dropLast_concat_getLast hne]

/-- The last statement is the finished words and the open one. -/
theorem statements_eq (l : List (Item α)) :
    statements l = (statements l).dropLast ++ [finished l ++ ended (openWord l)] := by
  have hne := List.splitOn_ne_nil Item.stop l
  have hlast : lastStatement l = (l.splitOn .stop).getLast hne := by
    rw [lastStatement, List.getLastD_eq_getLast?, List.getLast?_eq_getLast_of_ne_nil hne, Option.getD_some]
  rw [finished, openWord, ← words_eq, hlast, statements, ← List.map_dropLast, ← List.map_singleton (f := words),
    ← List.map_append, List.dropLast_concat_getLast hne]

/-! ### Reading from the left -/

/-- The words before an end of a statement belong to the statement. -/
theorem eat_stop (h : .stop ∉ p) :
    eat act atEnd (p ++ .stop :: l) ws w d = (act (ws ++ words (w.map .char ++ p)) d).bind (eat act atEnd l [] []) := by
  induction p generalizing ws w with
  | nil => rw [List.nil_append, List.append_nil, eat, words_chars]
  | cons x p ih =>
    have hp : .stop ∉ p := fun hmem => h (List.mem_cons_of_mem _ hmem)
    rw [List.cons_append]
    cases x with
    | char a =>
      rw [eat, ih hp, List.map_append, List.append_assoc]
      rfl
    | space => rw [eat, ih hp, List.map_nil, List.nil_append, words_chars_append, List.append_assoc]
    | stop => exact absurd List.mem_cons_self h

/-- Within a statement the words before the last space are finished. -/
theorem eat_end (h : .stop ∉ l) : eat act atEnd l ws w d =
    atEnd (ws ++ finished (w.map .char ++ l)) (openWord (w.map .char ++ l)) d := by
  have hstop (w : List α) {l : List (Item α)} (h : .stop ∉ l) : .stop ∉ w.map .char ++ l :=
    fun hmem => (List.mem_append.1 hmem).elim (stop_notMem w) h
  induction l generalizing ws w with
  | nil =>
    rw [eat, List.append_nil, finished, openWord, lastStatement_of_notMem (stop_notMem w),
      List.splitOn_eq_singleton (space_notMem w)]
    show _ = atEnd (ws ++ []) (text (w.map .char)) d
    rw [List.append_nil, text_map_char]
  | cons x l ih =>
    have hl : .stop ∉ l := fun hmem => h (List.mem_cons_of_mem _ hmem)
    cases x with
    | char a =>
      rw [eat, ih hl, List.map_append, List.append_assoc]
      rfl
    | space =>
      have hsplit : (w.map Item.char ++ Item.space :: l).splitOn .space = w.map .char :: l.splitOn .space := by
        rw [List.splitOn_append_cons_self, List.splitOn_eq_singleton (space_notMem w), List.singleton_append]
      have hne := List.splitOn_ne_nil Item.space l
      rw [eat, ih hl, finished, finished, openWord, openWord, lastStatement_of_notMem (hstop [] hl),
        lastStatement_of_notMem (hstop w h), hsplit, List.map_nil, List.nil_append, getLastD_cons_of_ne_nil hne,
        List.dropLast_cons_of_ne_nil hne, List.map_cons, ← List.singleton_append, List.filter_append, text_map_char,
        ← ended_eq_filter, List.append_assoc]
    | stop => exact absurd List.mem_cons_self h

/-- All statements but the last one, and then the end of the text. -/
theorem eat_eq (act : List (List α) → σ → Option σ) (atEnd : List (List α) → List α → σ → Option σ) (l : List (Item α))
    (d : σ) : eat act atEnd l [] [] d =
      ((statements l).dropLast.foldlM (fun d ws => act ws d) d).bind (atEnd (finished l) (openWord l)) := by
  induction hn : l.length using Nat.strongRecOn generalizing l d with
  | ind n ih =>
    by_cases hstop : .stop ∈ l
    · obtain ⟨p, l', rfl, hp⟩ := List.eq_append_cons_of_mem hstop
      have hlt : l'.length < n := by
        rw [← hn, List.length_append, List.length_cons]
        omega
      have hsplit : statements (p ++ .stop :: l') = words p :: statements l' := by
        rw [statements, List.splitOn_append_cons_self, List.splitOn_eq_singleton hp]
        rfl
      rw [eat_stop hp, hsplit, List.dropLast_cons_of_ne_nil (statements_ne_nil l'), List.foldlM_cons, Option.bind_eq_bind,
        Option.bind_assoc, finished, openWord, lastStatement_stop hp]
      exact congrArg _ (funext fun d => ih _ hlt l' d rfl)
    · have hsplit : statements l = [words l] := by
        rw [statements, List.splitOn_eq_singleton hstop]
        rfl
      rw [eat_end hstop, hsplit]
      rfl

end Splitting

/-! ### Two readings -/

/-- Two readings that do the same wherever the second one comes. -/
theorem foldlM_congr {β : Type*} {f g : σ → β → Option σ} {l : List β} {d : σ}
    (h : ∀ p a r d', l = p ++ a :: r → p.foldlM g d = some d' → f d' a = g d' a) : l.foldlM f d = l.foldlM g d := by
  induction l generalizing d with
  | nil => rfl
  | cons a l ih =>
    rw [List.foldlM_cons, List.foldlM_cons, h [] a l d rfl rfl]
    cases hd : g d a with
    | none => rfl
    | some d' =>
      refine ih fun p b r d'' hl hp => h (a :: p) b r d'' (by rw [hl, List.cons_append]) ?_
      rw [List.foldlM_cons, hd]
      exact hp

end Tokens

end ProcessNetwork
