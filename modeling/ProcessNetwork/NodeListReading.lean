import ProcessNetwork.NodeLoader
import ProcessNetwork.Lib.Tokens

/-!
# What a node list says

The reference reading of a node list: first the comments, the quotes and the backslashes are resolved, then the text is split
into statements and these into words.  The loop of `Loader` reads the same items, but does not take the token that is
open at the
end of the file.  Whether this matters is a condition on the text and on the map before its last statement
(`EndsIdle`); for files
that include one another, on each file that the reading comes to.
-/

namespace ProcessNetwork

namespace NodeLoader

open Tokens (eat ended statements finished openWord)

/-- The characters, spaces and ends of statements of a text. -/
def items : List Byte → List (Tokens.Item Byte)
  | [] => []
  | c :: cs =>
    if c = 35 then items (cs.dropWhile fun x => !endsLine x)
    else if c = 39 ∨ c = 34 then (cs.takeWhile (· ≠ c)).map .char ++ items (cs.dropWhile (· ≠ c)).tail
    else if c = 92 then (cs.take 1).map .char ++ items (cs.drop 1)
    else if c = 59 then .stop :: items cs
    else if isSpace c = true then .space :: items cs
    else .char c :: items cs
termination_by cs => cs.length
decreasing_by
  · exact Nat.lt_succ_of_le (List.dropWhile_sublist _).length_le
  · rw [List.length_tail]
    exact Nat.lt_succ_of_le ((Nat.sub_le _ _).trans (List.dropWhile_sublist _).length_le)
  · rw [List.length_drop]
    exact Nat.lt_succ_of_le (Nat.sub_le _ _)
  · exact Nat.lt_succ_self _
  · exact Nat.lt_succ_self _
  · exact Nat.lt_succ_self _

section Reference

variable (fs : FileSystem) (load : List Byte → NodeLibMap → Option NodeLibMap) (curdir : List Byte)

/-- What a statement says: `lib L a b ...` maps each of the names to `L`, if there is such a path, and `include` merges
the files
in order. -/
def meaning : List (List Byte) → NodeLibMap → Option NodeLibMap
  | key :: arg :: args, data =>
    if key = bytes "lib" then
      some (if absolute fs curdir arg = [] then data
        else fun name => if name ∈ args then some (absolute fs curdir arg) else data name)
    else if key = bytes "include" then (arg :: args).foldlM (fun data inc => load (absolute fs curdir inc) data) data
    else some data
  | _, data => some data

/-- The map that the reference reading gives. -/
def reference (content : List Byte) (data : NodeLibMap) : Option NodeLibMap :=
  (statements (items content)).foldlM (fun data stmt => meaning fs load curdir stmt data) data

end Reference

/-- The reference reading of a file with the files that it includes. -/
def referenceLoader (fs : FileSystem) : ℕ → List Byte → NodeLibMap → Option NodeLibMap
  | 0, _, _ => none
  | n + 1, ldfile, data =>
    (fs.contents ldfile).bind fun content =>
      reference fs (referenceLoader fs n) (fs.dirName (fs.realPath ldfile)) content data

variable {fs : FileSystem} {load : List Byte → NodeLibMap → Option NodeLibMap} {curdir lib : List Byte}
  {names : List (List Byte)} {data : NodeLibMap} {s : Reading} {cs : List Byte}

private theorem foldl_update (names : List (List Byte)) (data : NodeLibMap) :
    names.foldl (fun data name => Function.update data name (some lib)) data =
      fun name => if name ∈ names then some lib else data name := by
  induction names generalizing data with
  | nil => simp
  | cons a names ih =>
    rw [List.foldl_cons, ih]
    funext name
    by_cases h : name ∈ names
    · simp [h]
    · by_cases ha : name = a
      · simp [ha]
      · simp [h, ha]

private theorem processLine_eq (stmt : List (List Byte)) (data : NodeLibMap) :
    processLine fs load curdir stmt data = meaning fs load curdir stmt data := by
  cases stmt with
  | nil => rfl
  | cons key args =>
    cases args with
    | nil =>
      unfold processLine meaning
      dsimp only
      split_ifs
      · rfl
      · rfl
      · rfl
    | cons arg args =>
      unfold processLine meaning
      dsimp only
      split_ifs
      · rfl
      · rw [foldl_update]
      · rfl
      · rfl

/-! ### The loop reads the items -/

/-- The rest of the file, and what is done at its end with the words and the open token. -/
def readOn (fs : FileSystem) (load : List Byte → NodeLibMap → Option NodeLibMap) (curdir : List Byte)
    (atEnd : List (List Byte) → List Byte → NodeLibMap → Option NodeLibMap) (s : Reading) (cs : List Byte) :
    Option NodeLibMap :=
  (cs.foldlM (next fs load curdir) s).bind fun s => atEnd s.stack s.tokenStack s.data

variable {atEnd : List (List Byte) → List Byte → NodeLibMap → Option NodeLibMap}

private theorem readOn_cons (c : Byte) (cs : List Byte) : readOn fs load curdir atEnd s (c :: cs) =
    (next fs load curdir s c).bind fun s => readOn fs load curdir atEnd s cs := by
  unfold readOn
  rw [List.foldlM_cons, Option.bind_eq_bind, Option.bind_assoc]

/-- Outside of a comment, quotes and a backslash. -/
structure Quiet (s : Reading) : Prop where
  inComment : s.inComment = false
  escape : s.escape = false
  inSingleQuote : s.inSingleQuote = false
  inDoubleQuote : s.inDoubleQuote = false

private theorem quiet_start (data : NodeLibMap) : Quiet (start data) := ⟨rfl, rfl, rfl, rfl⟩

private theorem Quiet.next (h : Quiet s) (c : Byte) : next fs load curdir s c = plain fs load curdir s c := by
  unfold NodeLoader.next outside
  rw [h.inComment, h.escape, h.inSingleQuote, h.inDoubleQuote]
  rfl

/-- A comment is skipped up to the end of the line. -/
theorem readOn_comment (hs : Quiet s) (cs : List Byte) :
    readOn fs load curdir atEnd { s with inComment := true } cs =
      readOn fs load curdir atEnd s (cs.dropWhile fun x => !endsLine x) := by
  induction cs with
  | nil => rfl
  | cons c cs ih =>
    rw [readOn_cons]
    by_cases hc : endsLine c = true
    · have hnext : NodeLoader.next fs load curdir { s with inComment := true } c = NodeLoader.next fs load curdir s c := by
        unfold NodeLoader.next
        rw [if_pos rfl, if_pos hc, if_neg (by rw [hs.inComment]; decide), ← hs.inComment]
      rw [List.dropWhile_cons_of_neg (by simp [hc]), readOn_cons, hnext]
    · have hnext : NodeLoader.next fs load curdir { s with inComment := true } c = some { s with inComment := true } := by
        unfold NodeLoader.next
        rw [if_pos rfl, if_neg hc]
      rw [List.dropWhile_cons_of_pos (by simp [hc]), hnext, Option.bind_some, ih]

/-- What is between quotes belongs to the token. -/
theorem readOn_quoted {q : Byte} (quoted after : List Byte → Reading)
    (hnext : ∀ t c, NodeLoader.next fs load curdir (quoted t) c = some (if c = q then after t else quoted (t ++ [c])))
    (hend : ∀ t, readOn fs load curdir atEnd (quoted t) [] = readOn fs load curdir atEnd (after t) []) (t cs : List Byte) :
    readOn fs load curdir atEnd (quoted t) cs =
      readOn fs load curdir atEnd (after (t ++ cs.takeWhile (· ≠ q))) (cs.dropWhile (· ≠ q)).tail := by
  induction cs generalizing t with
  | nil =>
    rw [List.takeWhile_nil, List.append_nil]
    exact hend t
  | cons c cs ih =>
    rw [readOn_cons, hnext, Option.bind_some]
    by_cases hc : c = q
    · rw [if_pos hc, List.takeWhile_cons_of_neg (by simp [hc]), List.dropWhile_cons_of_neg (by simp [hc]), List.append_nil,
        List.tail_cons]
    · rw [if_neg hc, List.takeWhile_cons_of_pos (by simp [hc]), List.dropWhile_cons_of_pos (by simp [hc]), ih,
        List.append_assoc, List.singleton_append]

private theorem Quiet.readOn_singleQuote (h : Quiet s) (cs : List Byte) :
    readOn fs load curdir atEnd { s with inSingleQuote := true } cs =
      readOn fs load curdir atEnd { s with tokenStack := s.tokenStack ++ cs.takeWhile (· ≠ 39) }
        (cs.dropWhile (· ≠ 39)).tail := by
  refine readOn_quoted (fun t => { s with tokenStack := t, inSingleQuote := true })
    (fun t => { s with tokenStack := t }) (fun t c => ?_) (fun t => rfl) s.tokenStack cs
  unfold NodeLoader.next outside
  rw [if_neg (by rw [h.inComment]; decide), if_pos rfl]
  split_ifs
  · rw [← h.inSingleQuote]
  · rfl

private theorem Quiet.readOn_doubleQuote (h : Quiet s) (cs : List Byte) :
    readOn fs load curdir atEnd { s with inDoubleQuote := true } cs =
      readOn fs load curdir atEnd { s with tokenStack := s.tokenStack ++ cs.takeWhile (· ≠ 34) }
        (cs.dropWhile (· ≠ 34)).tail := by
  refine readOn_quoted (fun t => { s with tokenStack := t, inDoubleQuote := true })
    (fun t => { s with tokenStack := t }) (fun t c => ?_) (fun t => rfl) s.tokenStack cs
  unfold NodeLoader.next outside
  rw [if_neg (by rw [h.inComment]; decide), if_neg (by rw [h.inSingleQuote]; decide), if_neg (by rw [h.escape]; decide),
    if_pos rfl]
  split_ifs
  · rw [← h.inDoubleQuote]
  · rfl

/-- The character after a backslash belongs to the token. -/
theorem Quiet.readOn_escape (h : Quiet s) (cs : List Byte) :
    readOn fs load curdir atEnd { s with escape := true } cs =
      readOn fs load curdir atEnd { s with tokenStack := s.tokenStack ++ cs.take 1 } (cs.drop 1) := by
  cases cs with
  | nil =>
    rw [List.take_nil, List.append_nil]
    rfl
  | cons c cs =>
    have hnext : NodeLoader.next fs load curdir { s with escape := true } c = some (s.push c) := by
      unfold NodeLoader.next outside
      rw [if_neg (by rw [h.inComment]; decide), if_neg (by rw [h.inSingleQuote]; decide), if_pos rfl, ← h.escape]
      rfl
    rw [readOn_cons, hnext]
    rfl

private theorem endToken_words (s : Reading) : s.endToken.stack = s.stack ++ ended s.tokenStack := by
  unfold Reading.endToken ended
  split_ifs
  · rw [List.append_nil]
  · rfl

private theorem endToken_data (s : Reading) : s.endToken.data = s.data := by
  unfold Reading.endToken
  split_ifs
  · rfl
  · rfl

private theorem endToken_tokenStack (s : Reading) : s.endToken.tokenStack = [] := by
  unfold Reading.endToken
  split_ifs with h
  · exact h
  · rfl

private theorem Quiet.endToken (h : Quiet s) : Quiet s.endToken := by
  unfold Reading.endToken
  split_ifs
  · exact h
  · exact ⟨h.inComment, h.escape, h.inSingleQuote, h.inDoubleQuote⟩

/-- The loop reads the items of the text. -/
theorem Quiet.readOn_eq (h : Quiet s) (cs : List Byte) :
    readOn fs load curdir atEnd s cs = eat (meaning fs load curdir) atEnd (items cs) s.stack s.tokenStack s.data := by
  induction cs using ProcessNetwork.NodeLoader.items.induct generalizing s with
  | case1 =>
    rw [items]
    rfl
  | case2 cs ih =>
    rw [readOn_cons, h.next, plain, if_pos rfl, Option.bind_some, readOn_comment h, ih h, items, if_pos rfl]
  | case3 c cs hc hq ih =>
    rw [readOn_cons, h.next, plain, if_neg hc, items, if_neg hc, if_pos hq, Tokens.eat_chars]
    obtain rfl | rfl := hq
    · rw [if_pos rfl, Option.bind_some, h.readOn_singleQuote]
      exact ih ⟨h.inComment, h.escape, h.inSingleQuote, h.inDoubleQuote⟩
    · rw [if_neg (by decide), if_pos rfl, Option.bind_some, h.readOn_doubleQuote]
      exact ih ⟨h.inComment, h.escape, h.inSingleQuote, h.inDoubleQuote⟩
  | case4 cs hc hq ih =>
    rw [readOn_cons, h.next, plain, if_neg hc, if_neg (by decide), if_neg (by decide), if_pos rfl, Option.bind_some,
      h.readOn_escape, items, if_neg hc, if_neg hq, if_pos rfl, Tokens.eat_chars]
    exact ih ⟨h.inComment, h.escape, h.inSingleQuote, h.inDoubleQuote⟩
  | case5 cs hc hq hb ih =>
    rw [readOn_cons, h.next, plain, if_neg hc, if_neg (by decide), if_neg (by decide), if_neg hb, if_pos rfl, items,
      if_neg hc, if_neg hq, if_neg hb, if_pos rfl, eat, endToken_words, endToken_data, Option.bind_map,
      processLine_eq]
    congr 1
    funext data
    have hquiet := h.endToken
    have hrest := ih (s := { s.endToken with stack := [], data := data })
      ⟨hquiet.inComment, hquiet.escape, hquiet.inSingleQuote, hquiet.inDoubleQuote⟩
    rw [endToken_tokenStack] at hrest
    exact hrest
  | case6 c cs hc hq hb hstop hspace ih =>
    obtain ⟨hsingle, hdouble⟩ := not_or.1 hq
    rw [readOn_cons, h.next, plain, if_neg hc, if_neg hsingle, if_neg hdouble, if_neg hb, if_neg hstop, if_pos hspace,
      Option.bind_some, ih h.endToken, items, if_neg hc, if_neg hq, if_neg hb, if_neg hstop, if_pos hspace, eat,
      endToken_words, endToken_tokenStack, endToken_data]
  | case7 c cs hc hq hb hstop hspace ih =>
    obtain ⟨hsingle, hdouble⟩ := not_or.1 hq
    rw [readOn_cons, h.next, plain, if_neg hc, if_neg hsingle, if_neg hdouble, if_neg hb, if_neg hstop, if_neg hspace,
      Option.bind_some, ih (s := s.push c) ⟨h.inComment, h.escape, h.inSingleQuote, h.inDoubleQuote⟩, items, if_neg hc,
      if_neg hq, if_neg hb, if_neg hstop, if_neg hspace, eat]
    rfl

/-- What is done at the end of the file comes after all statements but the last one. -/
theorem readOn_start (content : List Byte) (data : NodeLibMap) : readOn fs load curdir atEnd (start data) content =
    ((statements (items content)).dropLast.foldlM (fun data stmt => meaning fs load curdir stmt data) data).bind
      (atEnd (finished (items content)) (openWord (items content))) := by
  rw [(quiet_start data).readOn_eq]
  exact Tokens.eat_eq (meaning fs load curdir) atEnd (items content) data

/-! ### The end of the file -/

variable {token : List Byte} {stack : List (List Byte)} {content : List Byte}

/-- One more word changes nothing: it is the first one or the path after `lib`, or the statement says nothing, or the
path of the
library does not resolve, or the name is mapped to the library already, or the file leaves the map as it is. -/
def Idle (fs : FileSystem) (load : List Byte → NodeLibMap → Option NodeLibMap) (curdir token : List Byte) :
    List (List Byte) → NodeLibMap → Prop
  | [], _ => True
  | key :: args, data =>
    (key = bytes "lib" → ∀ lib names, args = lib :: names →
      absolute fs curdir lib = [] ∨ token ∈ names ∨ data token = some (absolute fs curdir lib)) ∧
    (key = bytes "include" → ∀ data', args.foldlM (fun data inc => load (absolute fs curdir inc) data) data = some data' →
      load (absolute fs curdir token) data' = some data')

/-- The map before the last statement. -/
def before (fs : FileSystem) (load : List Byte → NodeLibMap → Option NodeLibMap) (curdir content : List Byte)
    (data : NodeLibMap) : Option NodeLibMap :=
  (statements (items content)).dropLast.foldlM (fun data stmt => meaning fs load curdir stmt data) data

/-- The token that is open at the end of the file, if there is one, changes nothing. -/
def EndsIdle (fs : FileSystem) (load : List Byte → NodeLibMap → Option NodeLibMap) (curdir content : List Byte)
    (data : NodeLibMap) : Prop :=
  openWord (items content) = [] ∨ ∀ data', before fs load curdir content data = some data' →
    Idle fs load curdir (openWord (items content)) (finished (items content)) data'

/-- `Loader` takes the finished words of the last statement. -/
theorem read_eq : read fs load curdir content data =
    (before fs load curdir content data).bind (meaning fs load curdir (finished (items content))) := by
  have hread : read fs load curdir content data =
    readOn fs load curdir (fun stack _ data => meaning fs load curdir stack data) (start data) content :=
    congrArg (Option.bind _) (funext fun (s : Reading) => processLine_eq s.stack s.data)
  rw [hread, readOn_start]
  rfl

/-- The reference takes the open one too. -/
theorem reference_eq : reference fs load curdir content data = (before fs load curdir content data).bind
    (meaning fs load curdir (finished (items content) ++ ended (openWord (items content)))) := by
  rw [reference, Tokens.statements_eq, List.foldlM_append]
  refine congrArg (Option.bind _) (funext fun data => ?_)
  rw [List.foldlM_cons]
  exact Option.bind_fun_some _

private theorem lib_append_iff :
    (some (if absolute fs curdir lib = [] then data
        else fun name => if name ∈ names then some (absolute fs curdir lib) else data name) =
      some (if absolute fs curdir lib = [] then data
        else fun name => if name ∈ names ++ [token] then some (absolute fs curdir lib) else data name)) ↔
      absolute fs curdir lib = [] ∨ token ∈ names ∨ data token = some (absolute fs curdir lib) := by
  by_cases hpath : absolute fs curdir lib = []
  · rw [if_pos hpath, if_pos hpath]
    exact ⟨fun _ => .inl hpath, fun _ => rfl⟩
  · rw [if_neg hpath, if_neg hpath, Option.some.injEq]
    constructor
    · intro h
      have htoken := congrFun h token
      rw [if_pos (List.mem_append_right _ (List.mem_singleton_self token))] at htoken
      by_cases hmem : token ∈ names
      · exact .inr (.inl hmem)
      · rw [if_neg hmem] at htoken
        exact .inr (.inr htoken)
    · intro h
      funext name
      by_cases hmem : name ∈ names
      · rw [if_pos hmem, if_pos (List.mem_append_left _ hmem)]
      · rw [if_neg hmem]
        by_cases hname : name = token
        · subst hname
          rw [if_pos (List.mem_append_right _ (List.mem_singleton_self name))]
          exact (h.resolve_left hpath).resolve_left hmem
        · rw [if_neg]
          rw [List.mem_append, List.mem_singleton]
          exact not_or.2 ⟨hmem, hname⟩

private theorem meaning_append_iff :
    meaning fs load curdir stack data = meaning fs load curdir (stack ++ [token]) data ↔
      Idle fs load curdir token stack data := by
  rw [← processLine_eq, ← processLine_eq]
  cases stack with
  | nil =>
    rw [List.nil_append, processLine_eq, processLine_eq]
    exact ⟨fun _ => trivial, fun _ => rfl⟩
  | cons key args =>
    have hne : bytes "include" ≠ bytes "lib" := by decide
    unfold Idle
    by_cases hlib : key = bytes "lib"
    · subst hlib
      have hother : ¬ bytes "lib" = bytes "include" := hne.symm
      cases args with
      | nil =>
        refine ⟨fun _ => ⟨fun _ lib names h => (by cases h), fun h => absurd h hother⟩, fun _ => ?_⟩
        rw [List.cons_append, List.nil_append, processLine_eq, processLine_eq, meaning, if_pos rfl]
        simp [meaning]
      | cons lib names =>
        rw [List.cons_append, List.cons_append, processLine_eq, processLine_eq, meaning, meaning, if_pos rfl, if_pos rfl,
          lib_append_iff]
        constructor
        · intro h
          refine ⟨fun _ lib' names' heq => ?_, fun h => absurd h hother⟩
          obtain ⟨rfl, rfl⟩ := List.cons.inj heq
          exact h
        · rintro ⟨h, -⟩
          exact h rfl lib names rfl
    · by_cases hinclude : key = bytes "include"
      · subst hinclude
        unfold processLine
        dsimp only [List.cons_append]
        rw [if_neg hne, if_neg hne, if_pos rfl, if_pos rfl, List.foldlM_append]
        refine Iff.trans ?_ ⟨fun h => ⟨fun h' => absurd h' hne, fun _ => h⟩, fun h => h.2 rfl⟩
        cases args.foldlM (fun data inc => load (absolute fs curdir inc) data) data with
        | none => exact ⟨fun _ data' h => (by cases h), fun _ => rfl⟩
        | some data' => simp [eq_comm]
      · unfold processLine
        dsimp only [List.cons_append]
        rw [if_neg hlib, if_neg hlib, if_neg hinclude, if_neg hinclude]
        exact ⟨fun _ => ⟨fun h => absurd h hlib, fun h => absurd h hinclude⟩, fun _ => rfl⟩

/-- The end of the file, with the open token. -/
def finish (fs : FileSystem) (load : List Byte → NodeLibMap → Option NodeLibMap) (curdir : List Byte) (s : Reading) :
    Option NodeLibMap :=
  processLine fs load curdir (s.stack ++ ended s.tokenStack) s.data

private theorem reference_eq_finish : reference fs load curdir content data =
    (content.foldlM (next fs load curdir) (start data)).bind (finish fs load curdir) := by
  have hfinish : (content.foldlM (next fs load curdir) (start data)).bind (finish fs load curdir) =
      readOn fs load curdir (fun ws w data => meaning fs load curdir (ws ++ ended w) data) (start data) content :=
    congrArg (Option.bind _) (funext fun (s : Reading) => processLine_eq (s.stack ++ ended s.tokenStack) s.data)
  rw [hfinish, readOn_start]
  exact reference_eq

/-- A new line at the end is one more word, or belongs to a word that is not taken. -/
theorem next_newline (s : Reading) :
    ((next fs load curdir s 10).bind fun s => processLine fs load curdir s.stack s.data) =
        processLine fs load curdir s.stack s.data ∨
      ((next fs load curdir s 10).bind fun s => processLine fs load curdir s.stack s.data) = finish fs load curdir s := by
  have hplain (s : Reading) : ((plain fs load curdir s 10).bind fun s => processLine fs load curdir s.stack s.data) =
      finish fs load curdir s := by
    have hnext : plain fs load curdir s 10 = some s.endToken := rfl
    rw [hnext, Option.bind_some, endToken_words, endToken_data, finish]
  have houtside (s : Reading) : ((outside fs load curdir s 10).bind fun s => processLine fs load curdir s.stack s.data) =
        processLine fs load curdir s.stack s.data ∨
      ((outside fs load curdir s 10).bind fun s => processLine fs load curdir s.stack s.data) = finish fs load curdir s := by
    unfold outside
    split_ifs with h1 h2 h3 h4 h5
    · exact .inl rfl
    · exact .inl rfl
    · exact .inl rfl
    · exact .inl rfl
    · exact .inl rfl
    · exact .inr (hplain s)
  unfold next
  split_ifs with h1 h2
  · exact houtside { s with inComment := false }
  · exact absurd rfl h2
  · exact houtside s

private theorem read_append_newline : read fs load curdir (content ++ [10]) data =
    (content.foldlM (next fs load curdir) (start data)).bind fun s =>
      (next fs load curdir s 10).bind fun s => processLine fs load curdir s.stack s.data := by
  unfold read
  rw [List.foldlM_append, Option.bind_eq_bind, Option.bind_assoc]
  congr 1
  funext s
  rw [List.foldlM_cons, Option.bind_eq_bind, Option.bind_assoc]
  congr 1

private theorem read_eq_reference_iff :
    read fs load curdir content data = reference fs load curdir content data ↔ EndsIdle fs load curdir content data := by
  rw [read_eq, reference_eq]
  unfold EndsIdle
  cases before fs load curdir content data with
  | none => exact ⟨fun _ => .inr fun data' h => (by cases h), fun _ => rfl⟩
  | some data' =>
    rw [Option.bind_some, Option.bind_some]
    by_cases htoken : openWord (items content) = []
    · rw [htoken]
      exact ⟨fun _ => .inl rfl, fun _ => by rw [ended, if_pos rfl, List.append_nil]⟩
    · rw [ended, if_neg htoken, meaning_append_iff]
      exact ⟨fun h => .inr fun _ heq => Option.some.inj heq ▸ h, fun h => h.resolve_left htoken _ rfl⟩

private theorem EndsIdle.read_newline (h : EndsIdle fs load curdir content data) :
    read fs load curdir (content ++ [10]) data = read fs load curdir content data := by
  have heq := read_eq_reference_iff.2 h
  rw [reference_eq_finish] at heq
  rw [read_append_newline]
  unfold read at heq ⊢
  cases hrun : content.foldlM (next fs load curdir) (start data) with
  | none => rfl
  | some s =>
    rw [hrun, Option.bind_some, Option.bind_some] at heq
    rw [Option.bind_some, Option.bind_some]
    obtain hnl | hnl := @next_newline fs load curdir s
    · exact hnl
    · exact hnl.trans heq.symm

/-! ### Files that include one another -/

/-- The reading comes to the file `inc`, with the map `data'`. -/
def Includes (fs : FileSystem) (load : List Byte → NodeLibMap → Option NodeLibMap) (curdir content : List Byte)
    (data : NodeLibMap) (inc : List Byte) (data' : NodeLibMap) : Prop :=
  ∃ prior args path more rest data₁, statements (items content) = prior ++
    (bytes "include" :: (args ++ path :: more)) :: rest ∧
    prior.foldlM (fun data stmt => meaning fs load curdir stmt data) data = some data₁ ∧
    args.foldlM (fun data inc => load (absolute fs curdir inc) data) data₁ = some data' ∧ inc = absolute fs curdir path

variable {load' : List Byte → NodeLibMap → Option NodeLibMap}

/-- A statement means the same if the files that it includes are read in the same way. -/
theorem meaning_congr {stmt : List (List Byte)}
    (h : ∀ args path more data', stmt = bytes "include" :: (args ++ path :: more) →
      args.foldlM (fun data inc => load' (absolute fs curdir inc) data) data = some data' →
      load (absolute fs curdir path) data' = load' (absolute fs curdir path) data') :
    meaning fs load curdir stmt data = meaning fs load' curdir stmt data := by
  match stmt with
  | [] => rfl
  | [_] => rfl
  | key :: arg :: args =>
    have hne : bytes "include" ≠ bytes "lib" := by decide
    simp only [meaning]
    by_cases hinclude : key = bytes "include"
    · subst hinclude
      rw [if_neg hne, if_neg hne, if_pos rfl, if_pos rfl]
      exact Tokens.foldlM_congr fun args path more data' hargs hdata => h args path more data' (by rw [hargs]) hdata
    · rw [if_neg hinclude, if_neg hinclude]

/-- What `Loader` makes of a text depends on the files to which the reference comes. -/
theorem read_congr (h : ∀ inc data', Includes fs load' curdir content data inc data' → load inc data' = load' inc data') :
    read fs load curdir content data = read fs load' curdir content data := by
  have hstmt {p r : List (List (List Byte))} {stmt : List (List Byte)} {data' : NodeLibMap} (after : List (List Byte))
      (hsplit : statements (items content) = p ++ (stmt ++ after) :: r)
      (hdata : p.foldlM (fun data stmt => meaning fs load' curdir stmt data) data = some data') :
      meaning fs load curdir stmt data' = meaning fs load' curdir stmt data' := by
    refine meaning_congr fun args path more data'' heq hargs => h _ data'' ⟨p, args, path, more ++ after, r, data', ?_⟩
    exact ⟨by rw [hsplit, heq, List.cons_append, List.append_assoc, List.cons_append], hdata, hargs, rfl⟩
  have hsplit := Tokens.statements_eq (items content)
  have hbefore : before fs load curdir content data = before fs load' curdir content data := by
    refine Tokens.foldlM_congr fun p stmt r data' hp hdata => ?_
    have hall := hsplit
    rw [hp, List.append_assoc, List.cons_append] at hall
    exact hstmt [] (by rw [hall, List.append_nil]) hdata
  rw [read_eq, read_eq, hbefore]
  cases hdata : before fs load' curdir content data with
  | none => rfl
  | some data' => exact hstmt _ hsplit hdata

/-- A call of `Loader`; `left` is what is left of the 100 files that may include one another. -/
structure LoaderCall where
  left : ℕ
  ldfile : List Byte
  data : NodeLibMap

namespace LoaderCall

def result (fs : FileSystem) (c : LoaderCall) : Option NodeLibMap := loader fs c.left c.ldfile c.data

def reference (fs : FileSystem) (c : LoaderCall) : Option NodeLibMap := referenceLoader fs c.left c.ldfile c.data

/-- The file of the call includes that of the other one. -/
def Calls (fs : FileSystem) (c c' : LoaderCall) : Prop :=
  c.left = c'.left + 1 ∧ ∃ content, fs.contents c.ldfile = some content ∧
    Includes fs (referenceLoader fs c'.left) (fs.dirName (fs.realPath c.ldfile)) content c.data c'.ldfile c'.data

/-- The calls for all files that are read. -/
def Reads (fs : FileSystem) : LoaderCall → LoaderCall → Prop := Relation.ReflTransGen (Calls fs)

/-- The token that is open at the end of the file, if there is one, changes nothing. -/
def EndsIdle (fs : FileSystem) (c : LoaderCall) : Prop :=
  ∀ n content, c.left = n + 1 → fs.contents c.ldfile = some content →
    NodeLoader.EndsIdle fs (referenceLoader fs n) (fs.dirName (fs.realPath c.ldfile)) content c.data

variable {c : LoaderCall}

private theorem result_eq_reference_iff (h : ∀ c', Calls fs c c' → c'.result fs = c'.reference fs) :
    c.result fs = c.reference fs ↔ c.EndsIdle fs := by
  obtain ⟨left, ldfile, data⟩ := c
  cases left with
  | zero => exact ⟨fun _ n content hleft => (by cases hleft), fun _ => rfl⟩
  | succ n =>
    unfold result reference EndsIdle
    dsimp only
    rw [loader, referenceLoader]
    cases hcontent : fs.contents ldfile with
    | none => exact ⟨fun _ m content _ h => (by cases h), fun _ => rfl⟩
    | some content =>
      have hread : read fs (loader fs n) (fs.dirName (fs.realPath ldfile)) content data =
          read fs (referenceLoader fs n) (fs.dirName (fs.realPath ldfile)) content data :=
        read_congr fun inc data' hinc => h ⟨n, inc, data'⟩ ⟨rfl, content, hcontent, hinc⟩
      rw [Option.bind_some, Option.bind_some, hread, read_eq_reference_iff]
      constructor
      · rintro hidle m content' hm hcontent'
        obtain rfl := Nat.succ.inj hm
        obtain rfl := Option.some.inj hcontent'
        exact hidle
      · exact fun hidle => hidle n content rfl rfl

/-- All files are read as the reference reads them exactly if each of them ends idle. -/
theorem forall_reads_iff (c : LoaderCall) :
    (∀ c', Reads fs c c' → c'.result fs = c'.reference fs) ↔ ∀ c', Reads fs c c' → c'.EndsIdle fs := by
  constructor
  · intro h c' hc'
    exact (result_eq_reference_iff fun d hd => h d (hc'.tail hd)).1 (h c' hc')
  · intro h c' hc'
    induction hleft : c'.left generalizing c' with
    | zero =>
      refine (result_eq_reference_iff fun d hd => ?_).2 (h c' hc')
      have hpos := hleft.symm.trans hd.1
      cases hpos
    | succ n ih =>
      exact (result_eq_reference_iff fun d hd => ih d (hc'.tail hd) (Nat.succ.inj (hd.1.symm.trans hleft))).2 (h c' hc')

end LoaderCall

open LoaderCall (Reads)

/-- A file is read to the end, and a new line at its end makes no difference, exactly if the token that is open at the
end changes
nothing.  The files that a reading comes to, by includes, are read to their ends exactly if this is so for each of them. -/
theorem loader_eq_iff (fs : FileSystem) :
    (∀ load curdir content data,
      (read fs load curdir content data = reference fs load curdir content data ∧
        read fs load curdir (content ++ [10]) data = read fs load curdir content data) ↔
      EndsIdle fs load curdir content data) ∧
    ∀ c : LoaderCall, (∀ c', Reads fs c c' → c'.result fs = c'.reference fs) ↔ ∀ c', Reads fs c c' → c'.EndsIdle fs := by
  refine ⟨fun load curdir content data => ?_, LoaderCall.forall_reads_iff⟩
  exact ⟨fun h => read_eq_reference_iff.1 h.1, fun h => ⟨read_eq_reference_iff.2 h, h.read_newline⟩⟩

/-- A file that ends after the name, without a new line. -/
theorem not_forall_loadNodeList : ¬ ∀ fs ldfile data, loadNodeList fs ldfile data = referenceLoader fs 100 ldfile data := by
  intro h
  have hfile := h ⟨fun _ => some (bytes "lib L a"), fun _ => true, id, fun _ => id, id⟩ (bytes "list") (fun _ => none)
  rw [loadNodeList, loader, referenceLoader, Option.bind_some, Option.bind_some, reference_eq_finish] at hfile
  have hname := congrArg (Option.map fun data => data (bytes "a")) hfile
  revert hname
  decide +kernel

end NodeLoader

end ProcessNetwork
