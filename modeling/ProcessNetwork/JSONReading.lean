import Mathlib.Data.List.TakeWhile
import ProcessNetwork.JSONVariant

/-!
# Reading tokens

`feed` takes the parser through a text in which it is never done and never wrong.  A value that was read is not always called
back yet: a number or a word is only complete with the character after it (`Ready`).  There is a lemma for each kind of token
that is written: strings, keys, white space, separators and ends.
-/

namespace ProcessNetwork.JSON

/-! ### Two callbacks -/

section Follows

variable {σ τ : Type} {f : σ → Event → Option σ} {g : τ → Event → Option τ} {R : σ → τ → Prop} {jc jc' : JSONParser}
  {s s' : σ} {t : τ}

/-- Whenever the first callback goes on, the second one does, and keeps the relation. -/
def Follows (R : σ → τ → Prop) (f : σ → Event → Option σ) (g : τ → Event → Option τ) : Prop :=
  ∀ s t event s', R s t → f s event = some s' → ∃ t', g t event = some t' ∧ R s' t'

private theorem Follows.parseParseBuffer (hfollows : Follows R f g) (hst : R s t)
    (h : JSONParser.parseParseBuffer f jc s = some (jc', s')) :
    ∃ t', JSONParser.parseParseBuffer g jc t = some (jc', t') ∧ R s' t' := by
  unfold JSONParser.parseParseBuffer at h ⊢
  cases hevent : jc.valueEvent with
  | none =>
    rw [hevent] at h
    cases h
    exact ⟨t, rfl, hst⟩
  | some event =>
    rw [hevent] at h
    obtain ⟨s'', hs, heq⟩ := Option.map_eq_some_iff.1 h
    cases heq
    obtain ⟨t', ht, hrel⟩ := hfollows s t event s' hst hs
    exact ⟨t', by simp [ht], hrel⟩

private theorem Follows.act (hfollows : Follows R f g) (hst : R s t) {a : Action} (h : jc.act f s a = some (jc', s')) :
    ∃ t', jc.act g t a = some (jc', t') ∧ R s' t' := by
  cases a with
  | ex | mx | zx | ix | de | df | sb | nu | fa | tr | ce =>
    cases h
    exact ⟨t, rfl, hst⟩
  | uc | cl =>
    simp only [JSONParser.act, Option.bind_eq_bind, Option.bind_eq_some_iff] at h ⊢
    obtain ⟨jc'', hjc, heq⟩ := h
    cases heq
    exact ⟨t, ⟨jc'', hjc, rfl⟩, hst⟩
  | oo | ao =>
    simp only [JSONParser.act, Option.bind_eq_bind, Option.bind_eq_some_iff] at h ⊢
    obtain ⟨s'', hs, heq⟩ := h
    cases heq
    obtain ⟨t', ht, hrel⟩ := hfollows s t _ _ hst hs
    exact ⟨t', ⟨t', ht, rfl⟩, hrel⟩
  | oe =>
    simp only [JSONParser.act, Option.bind_eq_bind, Option.bind_eq_some_iff] at h ⊢
    obtain ⟨s'', hs, jc'', hjc, heq⟩ := h
    cases heq
    obtain ⟨t', ht, hrel⟩ := hfollows s t _ _ hst hs
    exact ⟨t', ⟨t', ht, jc'', hjc, rfl⟩, hrel⟩
  | oc | ac =>
    simp only [JSONParser.act, Option.bind_eq_bind, Option.bind_eq_some_iff] at h ⊢
    obtain ⟨⟨jc₁, s₁⟩, hbuf, s₂, hs, jc₂, hjc, heq⟩ := h
    cases heq
    -- the value in the buffer is handed over before the end of the array or the object
    obtain ⟨t₁, ht₁, hrel₁⟩ := hfollows.parseParseBuffer hst hbuf
    obtain ⟨t', ht, hrel⟩ := hfollows s₁ t₁ _ _ hrel₁ hs
    exact ⟨t', ⟨(jc₁, t₁), ht₁, t', ht, jc₂, hjc, rfl⟩, hrel⟩
  | cb =>
    simp only [JSONParser.act] at h ⊢
    split_ifs at h ⊢ with hallow
    simp only [Option.bind_eq_bind, Option.bind_eq_some_iff] at h ⊢
    obtain ⟨⟨jc₁, s₁⟩, hbuf, heq⟩ := h
    cases heq
    obtain ⟨t', ht, hrel⟩ := hfollows.parseParseBuffer hst hbuf
    exact ⟨t', ⟨(jc₁, t'), ht, rfl⟩, hrel⟩
  | se =>
    simp only [JSONParser.act] at h ⊢
    split at h
    · rename_i hstack
      simp only [hstack, Option.bind_eq_bind, Option.bind_eq_some_iff] at h ⊢
      obtain ⟨s'', hs, heq⟩ := h
      cases heq
      obtain ⟨t', ht, hrel⟩ := hfollows s t _ _ hst hs
      exact ⟨t', ⟨t', ht, rfl⟩, hrel⟩
    iterate 2
      · simp only [Option.bind_eq_bind, Option.bind_eq_some_iff] at h ⊢
        obtain ⟨⟨jc₁, s₁⟩, hbuf, heq⟩ := h
        cases heq
        obtain ⟨t', ht, hrel⟩ := hfollows.parseParseBuffer hst hbuf
        exact ⟨t', ⟨(jc₁, t'), ht, rfl⟩, hrel⟩
    · cases h
  | cm =>
    simp only [JSONParser.act, Option.bind_eq_bind, Option.bind_eq_some_iff] at h ⊢
    obtain ⟨⟨jc₁, s₁⟩, hbuf, h⟩ := h
    obtain ⟨t', ht, hrel⟩ := hfollows.parseParseBuffer hst hbuf
    dsimp only at h
    split at h
    · rename_i hstack
      simp only [Option.bind_eq_some_iff] at h
      obtain ⟨jc₂, hjc, heq⟩ := h
      cases heq
      exact ⟨t', ⟨(jc₁, t'), ht, by simp [hstack, hjc]⟩, hrel⟩
    · rename_i hstack
      cases h
      exact ⟨t', ⟨(jc₁, t'), ht, by simp [hstack]⟩, hrel⟩
    · cases h

theorem Follows.char (hfollows : Follows R f g) (hst : R s t) {c : Byte} (h : jc.char f s c = some (jc', s')) :
    ∃ t', jc.char g t c = some (jc', t') ∧ R s' t' := by
  simp only [JSONParser.char, Option.bind_eq_bind, Option.bind_eq_some_iff] at h ⊢
  obtain ⟨cls, hcls, jc₁, hadd, h⟩ := h
  cases htr : transition jc₁.state cls with
  | xx =>
    rw [htr] at h
    cases h
  | state state =>
    rw [htr] at h
    cases h
    exact ⟨t, ⟨cls, hcls, jc₁, hadd, by rw [htr]⟩, hst⟩
  | action a =>
    rw [htr] at h
    obtain ⟨t', ht, hrel⟩ := hfollows.act hst h
    exact ⟨t', ⟨cls, hcls, jc₁, hadd, by rw [htr]; exact ht⟩, hrel⟩

end Follows

/-! ### The class -/

namespace Parser

variable {σ : Type} {derived : σ → Event → Option σ} {p : Parser σ} {c : Byte}

theorem parse_of_status (h : p.status ≠ .ok) : p.parse derived c = (p, false) := if_neg h

/-- A character that the machine rejects. -/
theorem parse_of_none (hok : p.status = .ok) (h : p.parser.char (callback derived) (p.depth, p.derived) c = none) :
    ∃ p', p.parse derived c = (p', false) ∧ p'.status = .error ∧ p'.derived = p.derived := by
  unfold parse
  rw [if_pos hok]
  by_cases hnl : c = 10
  · rw [if_pos hnl]
    dsimp only
    rw [h]
    exact ⟨_, rfl, rfl, rfl⟩
  · rw [if_neg hnl]
    dsimp only
    rw [h]
    exact ⟨_, rfl, rfl, rfl⟩

private theorem parse_end {q : Parser σ} {jc : JSONParser} {depth : Nat} {s : σ} (hq : q.status = .ok)
    (hdepth : q.depth = depth) (hs : q.derived = s) (hjc : q.parser = jc) :
    ∃ p', (if depth = 0 then
        match jc.done with
        | some parser => ({ q with parser := parser, status := .done }, true)
        | none => (q, true)
      else (q, true)) = (p', true) ∧ p'.depth = depth ∧ p'.derived = s ∧
      (p'.status = .ok ∧ p'.parser = jc ∧ (depth = 0 → jc.done = none) ∨
        p'.status = .done ∧ depth = 0 ∧ jc.done = some p'.parser) := by
  split
  · rename_i hzero
    cases hdone : jc.done with
    | none => exact ⟨q, rfl, hdepth, hs, .inl ⟨hq, hjc, fun _ => rfl⟩⟩
    | some parser => exact ⟨_, rfl, hdepth, hs, .inr ⟨rfl, hzero, rfl⟩⟩
  · rename_i hzero
    exact ⟨q, rfl, hdepth, hs, .inl ⟨hq, hjc, fun h => absurd h hzero⟩⟩

/-- A character that the machine accepts; the text may end with it. -/
theorem parse_of_some (hok : p.status = .ok) {jc : JSONParser} {depth : Nat} {s : σ}
    (h : p.parser.char (callback derived) (p.depth, p.derived) c = some (jc, depth, s)) :
    ∃ p', p.parse derived c = (p', true) ∧ p'.depth = depth ∧ p'.derived = s ∧
      (p'.status = .ok ∧ p'.parser = jc ∧ (depth = 0 → jc.done = none) ∨
        p'.status = .done ∧ depth = 0 ∧ jc.done = some p'.parser) := by
  unfold parse
  rw [if_pos hok]
  by_cases hnl : c = 10
  · rw [if_pos hnl]
    dsimp only
    rw [h]
    exact parse_end hok rfl rfl rfl
  · rw [if_neg hnl]
    dsimp only
    rw [h]
    exact parse_end hok rfl rfl rfl

/-- What the callback keeps, the parser keeps. -/
theorem parse_invariant {P : σ → Prop} (hP : ∀ s event s', P s → derived s event = some s' → P s') (hp : P p.derived)
    (c : Byte) : P (p.parse derived c).1.derived := by
  have hfollows : Follows (fun ctx _ => P ctx.2) (callback derived) fun (_ : Unit) _ => some () := by
    intro ctx _ event ctx' hctx h
    obtain ⟨s, hs, rfl⟩ := Option.map_eq_some_iff.1 h
    refine ⟨(), rfl, ?_⟩
    have := hP ctx.2 event s hctx hs
    cases event <;> exact this
  by_cases hok : p.status = .ok
  · cases h : p.parser.char (callback derived) (p.depth, p.derived) c with
    | none =>
      obtain ⟨p', hp', _, hderived⟩ := parse_of_none hok h
      rw [hp', hderived]
      exact hp
    | some x =>
      obtain ⟨jc, depth, s⟩ := x
      obtain ⟨_, _, hs⟩ := hfollows.char (t := ()) hp h
      obtain ⟨p', hp', _, hderived, _⟩ := parse_of_some hok h
      rw [hp', hderived]
      exact hs
  · rw [parse_of_status hok]
    exact hp

theorem parseAll_invariant {P : σ → Prop} (hP : ∀ s event s', P s → derived s event = some s' → P s') (hp : P p.derived)
    (cs : List Byte) : P (p.parseAll derived cs).1.derived := by
  induction cs generalizing p with
  | nil => exact hp
  | cons c cs ih =>
    have hc := parse_invariant hP hp c
    rw [parseAll]
    dsimp only
    split
    · exact ih hc
    · exact hc

end Parser

/-! ### Feeding a text -/

section Feed

variable {σ : Type} {derived : σ → Event → Option σ}

/-- The parser after a text, unless there is an error or the depth is zero after one of its characters. -/
def feed (derived : σ → Event → Option σ) : JSONParser × Nat × σ → List Byte → Option (JSONParser × Nat × σ)
  | x, [] => some x
  | x, c :: cs =>
    match x.1.char (Parser.callback derived) x.2 c with
    | some y => if y.2.1 = 0 then none else feed derived y cs
    | none => none

theorem feed_cons {x y : JSONParser × Nat × σ} {c : Byte} (cs : List Byte)
    (h : x.1.char (Parser.callback derived) x.2 c = some y) (hy : y.2.1 ≠ 0) :
    feed derived x (c :: cs) = feed derived y cs := by
  rw [feed, h]
  exact if_neg hy

theorem feed_append {x y : JSONParser × Nat × σ} {cs : List Byte} (h : feed derived x cs = some y) (cs' : List Byte) :
    feed derived x (cs ++ cs') = feed derived y cs' := by
  induction cs generalizing x with
  | nil =>
    cases h
    rfl
  | cons c cs ih =>
    rw [feed] at h
    cases hc : x.1.char (Parser.callback derived) x.2 c with
    | none =>
      rw [hc] at h
      cases h
    | some z =>
      rw [hc] at h
      dsimp only at h
      split_ifs at h with hz
      rw [List.cons_append, feed_cons _ hc hz]
      exact ih h

/-- The text does to the class what it does to the parser. -/
theorem parseAll_of_feed {p : Parser σ} (hok : p.status = .ok) {y : JSONParser × Nat × σ} {cs : List Byte}
    (h : feed derived (p.parser, p.depth, p.derived) cs = some y) (cs' : List Byte) :
    ∃ p' : Parser σ, p'.status = .ok ∧ (p'.parser, p'.depth, p'.derived) = y ∧
      (p.parseAll derived (cs ++ cs')).1 = (p'.parseAll derived cs').1 := by
  induction cs generalizing p with
  | nil =>
    cases h
    exact ⟨p, hok, rfl, rfl⟩
  | cons c cs ih =>
    rw [feed] at h
    cases hc : p.parser.char (Parser.callback derived) (p.depth, p.derived) c with
    | none =>
      rw [hc] at h
      cases h
    | some z =>
      obtain ⟨jc, depth, s⟩ := z
      rw [hc] at h
      dsimp only at h
      split_ifs at h with hz
      obtain ⟨q, hq, rfl, rfl, ⟨hqok, rfl, _⟩ | ⟨_, hzero, _⟩⟩ := Parser.parse_of_some hok hc
      · obtain ⟨p', hp', hy, hrest⟩ := ih hqok h
        refine ⟨p', hp', hy, ?_⟩
        rw [List.cons_append, Parser.parseAll, hq]
        exact hrest
      · exact absurd hzero hz

end Feed

theorem forall_byte {P : Byte → Prop} (h : ∀ n < 256, P (UInt8.ofNat n)) (c : Byte) : P c := by
  have := h c.toNat c.toNat_lt
  rwa [UInt8.ofNat_toNat] at this

section Char

variable {σ : Type} {callback : σ → Event → Option σ} {jc jc' : JSONParser} {ctx : σ} {c : Byte} {cls : CharClass}

theorem char_state {s : State} (hcls : charClass c = some cls) (hadd : jc.addChar c cls = some jc')
    (htr : transition jc'.state cls = .state s) : jc.char callback ctx c = some ({ jc' with state := s }, ctx) := by
  simp [JSONParser.char, hcls, hadd, htr]

theorem char_action {a : Action} (hcls : charClass c = some cls) (hadd : jc.addChar c cls = some jc')
    (htr : transition jc'.state cls = .action a) : jc.char callback ctx c = jc'.act callback ctx a := by
  simp [JSONParser.char, hcls, hadd, htr]

end Char

/-- A parser between two tokens. -/
def resting (state beforeComment : State) (stack : List Mode) : JSONParser :=
  ⟨state, beforeComment, .none, false, false, true, 0, stack, []⟩

/-- A parser in a string, with what it has read of it. -/
def inString (beforeComment : State) (stack : List Mode) (parseBuffer : List Byte) : JSONParser :=
  ⟨.st, beforeComment, .string, false, false, true, 0, stack, parseBuffer⟩

section Steps

variable {N : Type} {F : Numbers N} {b b' : JSONToVariant N} {bc : State} {stack : List Mode} {buf : List Byte} {d : Nat}

/-! ### Strings -/

theorem transition_plain : ∀ c : Byte, 32 ≤ c → c ≠ 34 → c ≠ 92 →
    (charClass c).map (transition .st) = some (.state .st) := by
  apply forall_byte
  decide +kernel

private theorem char_plain {c : Byte} (h32 : 32 ≤ c) (hquote : c ≠ 34) (hbacks : c ≠ 92) (ctx : Nat × JSONToVariant N) :
    (inString bc stack buf).char (Parser.callback (JSONToVariant.callback F)) ctx c =
      some (inString bc stack (c :: buf), ctx) := by
  obtain ⟨cls, hcls, htr⟩ := Option.map_eq_some_iff.1 (transition_plain c h32 hquote hbacks)
  have hadd : (inString bc stack buf).addChar c cls = some (inString bc stack (c :: buf)) := rfl
  exact char_state hcls hadd htr

private theorem feed_control {c : Byte} (h : c < 32) : feed (JSONToVariant.callback F) (inString bc stack buf, d + 1, b)
    (escapeChar c) = some (inString bc stack (c :: buf), d + 1, b) := by
  obtain ⟨n, hn, rfl⟩ : ∃ n < 32, c = UInt8.ofNat n := ⟨c.toNat, h, UInt8.ofNat_toNat.symm⟩
  interval_cases n <;> rfl

/-- What `InsertString` writes for a character is read as that character. -/
theorem feed_escapeChar (c : Byte) : feed (JSONToVariant.callback F) (inString bc stack buf, d + 1, b) (escapeChar c) =
    some (inString bc stack (c :: buf), d + 1, b) := by
  by_cases h32 : c < 32
  · exact feed_control h32
  by_cases hbacks : c = 92
  · subst hbacks
    rfl
  by_cases hquote : c = 34
  · subst hquote
    rfl
  by_cases hslash : c = 47
  · subst hslash
    rfl
  have hplain : escapeChar c = [c] := by
    have hne (n : Byte) (hn : n < 32) : c ≠ n := fun he => h32 (he ▸ hn)
    unfold escapeChar
    rw [if_neg hbacks, if_neg hquote, if_neg hslash, if_neg (hne 8 (by decide)), if_neg (hne 12 (by decide)),
      if_neg (hne 10 (by decide)), if_neg (hne 13 (by decide)), if_neg (hne 9 (by decide)), if_neg h32, ite_self]
  rw [hplain, feed_cons [] (char_plain (not_lt.1 h32) hquote hbacks _) (Nat.succ_ne_zero d)]
  rfl

private theorem feed_escaped (s : List Byte) : feed (JSONToVariant.callback F) (inString bc stack buf, d + 1, b)
    (s.flatMap escapeChar) = some (inString bc stack (s.reverse ++ buf), d + 1, b) := by
  induction s generalizing buf with
  | nil => rfl
  | cons c s ih =>
    rw [List.flatMap_cons, feed_append (feed_escapeChar c), ih, List.reverse_cons, List.append_assoc]
    rfl

/-! ### White space -/

/-- What stands between the tokens. -/
def White (ws : List Byte) : Prop := ∀ c ∈ ws, c = 32 ∨ c = 10

theorem White.append {ws ws' : List Byte} (h : White ws) (h' : White ws') : White (ws ++ ws') := by
  intro c hc
  rcases List.mem_append.1 hc with hc | hc
  · exact h c hc
  · exact h' c hc

theorem white_indent (pretty : Bool) (level : Nat) : White (indent pretty level) := by
  have hspaces (level : Nat) : White (indentSpaces level) := by
    induction level using indentSpaces.induct with
    | case1 level h =>
      rw [indentSpaces, dif_pos h]
      exact fun c hc => .inl (List.eq_of_mem_replicate hc)
    | case2 level h ih =>
      rw [indentSpaces, dif_neg h]
      exact White.append (fun c hc => .inl (List.eq_of_mem_replicate hc)) ih
  unfold indent
  split
  · intro c hc
    rcases List.mem_cons.1 hc with rfl | hc
    · exact .inr rfl
    · exact hspaces level c hc
  · exact fun c hc => absurd hc List.not_mem_nil

/-- White space changes nothing where a token is expected. -/
theorem feed_white {s : State} (hs : s = .ar ∨ s = .va ∨ s = .ob ∨ s = .ke) {ws : List Byte} (hws : White ws) :
    feed (JSONToVariant.callback F) (resting s bc stack, d + 1, b) ws = some (resting s bc stack, d + 1, b) := by
  induction ws with
  | nil => rfl
  | cons c ws ih =>
    have hchar : (resting s bc stack).char (Parser.callback (JSONToVariant.callback F)) (d + 1, b) c =
        some (resting s bc stack, d + 1, b) := by
      rcases hws c List.mem_cons_self with rfl | rfl <;> rcases hs with rfl | rfl | rfl | rfl <;> rfl
    rw [feed_cons ws hchar (Nat.succ_ne_zero d)]
    exact ih fun c hc => hws c (List.mem_cons_of_mem _ hc)

/-! ### Values that were read -/

/-- What is left to call back of a value, whatever white space follows it. -/
def Complete (F : Numbers N) (type : ValueType) (buf : List Byte) (b b' : JSONToVariant N) : Prop :=
  match type with
  | .none => buf = [] ∧ b = b'
  | .integer => ∃ i, (∀ ws, White ws → scanInteger (ws ++ buf).reverse = i) ∧ b.addValue (.number (F.ofInteger i)) = some b'
  | .float => ∃ n, (∀ ws, White ws → F.strtod (ws ++ buf).reverse = n) ∧ b.addValue (.number n) = some b'
  | .null => b.addValue .null = some b'
  | .true => b.addValue (.bool true) = some b'
  | .false => b.addValue (.bool false) = some b'
  | _ => False

private theorem Complete.white {type : ValueType} (h : Complete F type buf b b') (htype : type ≠ .none) {c : Byte}
    (hc : c = 32 ∨ c = 10) : Complete F type (c :: buf) b b' := by
  cases type with
  | none => exact absurd rfl htype
  | integer | float =>
    obtain ⟨i, hi, hadd⟩ := h
    refine ⟨i, fun ws hws => ?_, hadd⟩
    have := hi (ws ++ [c]) (hws.append fun x hx => by rwa [List.mem_singleton.1 hx])
    rwa [List.append_assoc] at this
  | null | true | false => exact h
  | string => exact h.elim

/-- A value was read up to its last character; with it the variant under construction is `b'`. -/
def Ready (F : Numbers N) (bc : State) (stack : List Mode) (d : Nat) (b' : JSONToVariant N)
    (x : JSONParser × Nat × JSONToVariant N) : Prop :=
  ∃ s type buf b, x = (⟨s, bc, type, false, false, true, 0, stack, buf⟩, d, b) ∧
    (s = .ok ∨ s = .it ∨ s = .ze ∨ s = .fr ∨ s = .e3) ∧ Complete F type buf b b'

theorem ready_resting : Ready F bc stack d b (resting .ok bc stack, d, b) := ⟨.ok, .none, [], b, rfl, .inl rfl, rfl, rfl⟩

private theorem Complete.parseParseBuffer {type : ValueType} {s : State} (h : Complete F type buf b b') :
    JSONParser.parseParseBuffer (Parser.callback (JSONToVariant.callback F))
      ⟨s, bc, type, false, false, true, 0, stack, buf⟩ (d, b) =
      some (⟨s, bc, type, false, false, true, 0, stack, []⟩, (d, b')) := by
  have hcallback (event : Event) (hevent : JSONToVariant.callback F b event = some b')
      (hdepth : event ≠ .arrayBegin ∧ event ≠ .arrayEnd ∧ event ≠ .objectBegin ∧ event ≠ .objectEnd) :
      Parser.callback (JSONToVariant.callback F) (d, b) event = some (d, b') := by
    unfold Parser.callback
    rw [hevent]
    cases event <;> first | rfl | simp at hdepth
  cases type with
  | none =>
    obtain ⟨rfl, rfl⟩ := h
    rfl
  | integer =>
    obtain ⟨i, hi, hadd⟩ := h
    have hscan : scanInteger buf.reverse = i := hi [] fun c hc => absurd hc List.not_mem_nil
    show (Parser.callback (JSONToVariant.callback F) (d, b) (.integer (scanInteger buf.reverse))).map _ = _
    rw [hcallback (.integer (scanInteger buf.reverse)) (by rw [hscan]; exact hadd) (by simp)]
    rfl
  | float =>
    obtain ⟨n, hn, hadd⟩ := h
    have hscan : F.strtod buf.reverse = n := hn [] fun c hc => absurd hc List.not_mem_nil
    show (Parser.callback (JSONToVariant.callback F) (d, b) (.float buf.reverse)).map _ = _
    rw [hcallback (.float buf.reverse) (by rw [JSONToVariant.callback, hscan]; exact hadd) (by simp)]
    rfl
  | null =>
    show (Parser.callback (JSONToVariant.callback F) (d, b) .null).map _ = _
    rw [hcallback .null h (by simp)]
    rfl
  | true =>
    show (Parser.callback (JSONToVariant.callback F) (d, b) .true).map _ = _
    rw [hcallback .true h (by simp)]
    rfl
  | false =>
    show (Parser.callback (JSONToVariant.callback F) (d, b) .false).map _ = _
    rw [hcallback .false h (by simp)]
    rfl
  | string => exact h.elim

theorem addChar_push {jc : JSONParser} {c : Byte} {cls : CharClass} (hescaped : jc.escaped = false)
    (hcomment : jc.comment = false) (h : jc.type ≠ .none ∨ ¬ (cls = .space ∨ cls = .white)) :
    jc.addChar c cls = some (jc.parseBufferPushBackChar c) := by
  unfold JSONParser.addChar
  rw [hescaped, hcomment, if_neg Bool.false_ne_true, if_pos ⟨Bool.false_ne_true, h⟩]

theorem Ready.white {x : JSONParser × Nat × JSONToVariant N} (h : Ready F bc stack (d + 1) b' x) {ws : List Byte}
    (hws : White ws) : ∃ y, feed (JSONToVariant.callback F) x ws = some y ∧ Ready F bc stack (d + 1) b' y := by
  induction ws generalizing x with
  | nil => exact ⟨x, rfl, h⟩
  | cons c ws ih =>
    have hc := hws c List.mem_cons_self
    obtain ⟨s, type, buf, b, rfl, hs, hcomplete⟩ := h
    obtain ⟨cls, hcls, hwhite⟩ : ∃ cls, charClass c = some cls ∧ (cls = .space ∨ cls = .white) := by
      rcases hc with rfl | rfl
      · exact ⟨.space, rfl, .inl rfl⟩
      · exact ⟨.white, rfl, .inr rfl⟩
    have htr : transition s cls = .state .ok := by
      rcases hwhite with rfl | rfl <;> rcases hs with rfl | rfl | rfl | rfl | rfl <;> rfl
    obtain ⟨y, hy, hready, hdepth⟩ : ∃ y, JSONParser.char (Parser.callback (JSONToVariant.callback F))
        ⟨s, bc, type, false, false, true, 0, stack, buf⟩ (d + 1, b) c = some y ∧ Ready F bc stack (d + 1) b' y ∧
        y.2.1 ≠ 0 := by
      by_cases htype : type = .none
      · subst htype
        have hadd : JSONParser.addChar ⟨s, bc, .none, false, false, true, 0, stack, buf⟩ c cls =
            some ⟨s, bc, .none, false, false, true, 0, stack, buf⟩ := by
          rcases hwhite with rfl | rfl <;> rfl
        exact ⟨_, char_state hcls hadd htr, ⟨.ok, .none, buf, b, rfl, .inl rfl, hcomplete⟩, Nat.succ_ne_zero d⟩
      · exact ⟨_, char_state hcls (addChar_push rfl rfl (.inl htype)) htr,
          ⟨.ok, type, c :: buf, b, rfl, .inl rfl, hcomplete.white htype hc⟩, Nat.succ_ne_zero d⟩
    obtain ⟨z, hz, hready'⟩ := ih hready fun c hc => hws c (List.mem_cons_of_mem _ hc)
    exact ⟨z, (feed_cons ws hy hdepth).trans hz, hready'⟩

/-! ### Separators and ends -/

/-- A separator or an end after a value that is ready; `act` is what the table says, with the value called back. -/
theorem Ready.char {x : JSONParser × Nat × JSONToVariant N} (h : Ready F bc stack d b' x) {c : Byte} {cls : CharClass}
    {a : Action} (hcls : charClass c = some cls) (hwhite : ¬ (cls = .space ∨ cls = .white))
    (htr : ∀ s, s = .ok ∨ s = .it ∨ s = .ze ∨ s = .fr ∨ s = .e3 → transition s cls = .action a) :
    ∃ jc : JSONParser, x.1.char (Parser.callback (JSONToVariant.callback F)) x.2 c =
        jc.act (Parser.callback (JSONToVariant.callback F)) x.2 a ∧
      ∃ s type, JSONParser.parseParseBuffer (Parser.callback (JSONToVariant.callback F)) jc.parseBufferPopBackChar x.2 =
        some (⟨s, bc, type, false, false, true, 0, stack, []⟩, (d, b')) := by
  obtain ⟨s, type, buf, b, rfl, hs, hcomplete⟩ := h
  exact ⟨_, char_action hcls (addChar_push rfl rfl (.inr hwhite)) (htr s hs), s, type, hcomplete.parseParseBuffer⟩

theorem Ready.comma_array {stack : List Mode} {x : JSONParser × Nat × JSONToVariant N}
    (h : Ready F bc (.array :: stack) (d + 1) b' x) :
    feed (JSONToVariant.callback F) x [44] = some (resting .va bc (.array :: stack), d + 1, b') := by
  obtain ⟨jc, hchar, s, type, hparse⟩ := h.char (c := 44) (a := .cm) rfl (by simp)
    (by rintro s (rfl | rfl | rfl | rfl | rfl) <;> rfl)
  refine feed_cons [] (hchar.trans ?_) (Nat.succ_ne_zero d)
  rw [JSONParser.act, hparse]
  rfl

theorem Ready.comma_object {stack : List Mode} {x : JSONParser × Nat × JSONToVariant N}
    (h : Ready F bc (.object :: stack) (d + 1) b' x) :
    feed (JSONToVariant.callback F) x [44] = some (resting .ke bc (.key :: stack), d + 1, b') := by
  obtain ⟨jc, hchar, s, type, hparse⟩ := h.char (c := 44) (a := .cm) rfl (by simp)
    (by rintro s (rfl | rfl | rfl | rfl | rfl) <;> rfl)
  refine feed_cons [] (hchar.trans ?_) (Nat.succ_ne_zero d)
  rw [JSONParser.act, hparse]
  rfl

/-- The end of an array that has an element. -/
theorem Ready.close_array {stack : List Mode} {x : JSONParser × Nat × JSONToVariant N} {b'' : JSONToVariant N}
    (h : Ready F bc (.array :: stack) (d + 1) b' x) (hend : JSONToVariant.callback F b' .arrayEnd = some b'') :
    x.1.char (Parser.callback (JSONToVariant.callback F)) x.2 93 = some (resting .ok bc stack, d, b'') := by
  obtain ⟨jc, hchar, s, type, hparse⟩ := h.char (c := 93) (a := .ac) rfl (by simp)
    (by rintro s (rfl | rfl | rfl | rfl | rfl) <;> rfl)
  have hcallback : Parser.callback (JSONToVariant.callback F) (d + 1, b') .arrayEnd = some (d, b'') := by
    unfold Parser.callback
    rw [hend]
    rfl
  rw [hchar, JSONParser.act, hparse]
  show (Parser.callback (JSONToVariant.callback F) (d + 1, b') .arrayEnd >>= _) = _
  rw [hcallback]
  rfl

theorem close_empty_array {stack : List Mode} {b'' : JSONToVariant N}
    (hend : JSONToVariant.callback F b .arrayEnd = some b'') :
    (resting .ar bc (.array :: stack)).char (Parser.callback (JSONToVariant.callback F)) (d + 1, b) 93 =
      some (resting .ok bc stack, d, b'') := by
  have hcallback : Parser.callback (JSONToVariant.callback F) (d + 1, b) .arrayEnd = some (d, b'') := by
    unfold Parser.callback
    rw [hend]
    rfl
  have hadd : (resting .ar bc (.array :: stack)).addChar 93 .rsqrb =
    some ((resting .ar bc (.array :: stack)).parseBufferPushBackChar 93) := rfl
  rw [char_action rfl hadd rfl]
  show (Parser.callback (JSONToVariant.callback F) (d + 1, b) .arrayEnd >>= _) = _
  rw [hcallback]
  rfl

/-- The end of an object that has a member. -/
theorem Ready.close_object {stack : List Mode} {x : JSONParser × Nat × JSONToVariant N} {b'' : JSONToVariant N}
    (h : Ready F bc (.object :: stack) (d + 1) b' x) (hend : JSONToVariant.callback F b' .objectEnd = some b'') :
    x.1.char (Parser.callback (JSONToVariant.callback F)) x.2 125 = some (resting .ok bc stack, d, b'') := by
  obtain ⟨jc, hchar, s, type, hparse⟩ := h.char (c := 125) (a := .oc) rfl (by simp)
    (by rintro s (rfl | rfl | rfl | rfl | rfl) <;> rfl)
  have hcallback : Parser.callback (JSONToVariant.callback F) (d + 1, b') .objectEnd = some (d, b'') := by
    unfold Parser.callback
    rw [hend]
    rfl
  rw [hchar, JSONParser.act, hparse]
  show (Parser.callback (JSONToVariant.callback F) (d + 1, b') .objectEnd >>= _) = _
  rw [hcallback]
  rfl

theorem close_empty_object {stack : List Mode} {b'' : JSONToVariant N}
    (hend : JSONToVariant.callback F b .objectEnd = some b'') :
    (resting .ob bc (.key :: stack)).char (Parser.callback (JSONToVariant.callback F)) (d + 1, b) 125 =
      some (resting .ok bc stack, d, b'') := by
  have hcallback : Parser.callback (JSONToVariant.callback F) (d + 1, b) .objectEnd = some (d, b'') := by
    unfold Parser.callback
    rw [hend]
    rfl
  have hadd : (resting .ob bc (.key :: stack)).addChar 125 .rcurb =
    some ((resting .ob bc (.key :: stack)).parseBufferPushBackChar 125) := rfl
  rw [char_action rfl hadd rfl]
  show (Parser.callback (JSONToVariant.callback F) (d + 1, b) .objectEnd >>= _) = _
  rw [hcallback]
  rfl

/-! ### Strings and keys -/

/-- No character of the string is zero. -/
def NulFree (s : List Byte) : Prop := 0 ∉ s

theorem cString_of_nulFree {s : List Byte} (h : NulFree s) : cString s = s := by
  refine List.takeWhile_eq_self_iff.2 fun c hc => decide_eq_true ?_
  rintro rfl
  exact h hc

/-- A string where a value may stand. -/
theorem feed_string {s : List Byte} (hs : NulFree s) {state : State} (hstate : state = .ar ∨ state = .va) {m : Mode}
    (hm : m = .array ∨ m = .object) (hadd : b.addValue (.string s) = some b') :
    feed (JSONToVariant.callback F) (resting state bc (m :: stack), d + 1, b) (insertString s) =
      some (resting .ok bc (m :: stack), d + 1, b') := by
  have hopen : (resting state bc (m :: stack)).char (Parser.callback (JSONToVariant.callback F)) (d + 1, b) 34 =
      some (inString bc (m :: stack) [], d + 1, b) := by
    rcases hstate with rfl | rfl <;> rfl
  have hcallback : Parser.callback (JSONToVariant.callback F) (d + 1, b) (.string s.reverse.reverse) = some (d + 1, b') := by
    unfold Parser.callback
    rw [List.reverse_reverse]
    show (b.addValue (.string (cString s))).map _ = _
    rw [cString_of_nulFree hs, hadd]
    rfl
  have hclose : (inString bc (m :: stack) s.reverse).char (Parser.callback (JSONToVariant.callback F)) (d + 1, b) 34 =
      some (resting .ok bc (m :: stack), d + 1, b') := by
    have hadd : (inString bc (m :: stack) s.reverse).addChar 34 .quote =
      some (inString bc (m :: stack) (34 :: s.reverse)) := rfl
    rw [char_action rfl hadd rfl]
    rcases hm with rfl | rfl
    · show ((Parser.callback (JSONToVariant.callback F) (d + 1, b) (.string s.reverse.reverse)).map _ >>= _) = _
      rw [hcallback]
      rfl
    · show ((Parser.callback (JSONToVariant.callback F) (d + 1, b) (.string s.reverse.reverse)).map _ >>= _) = _
      rw [hcallback]
      rfl
  rw [insertString, cString_of_nulFree hs, feed_cons _ hopen (Nat.succ_ne_zero d), feed_append (feed_escaped s),
    List.append_nil, feed_cons [] hclose (Nat.succ_ne_zero d)]
  rfl

/-- A key with the colon and the space behind it. -/
theorem feed_key {s : List Byte} (hs : NulFree s) {state : State} (hstate : state = .ob ∨ state = .ke)
    (hkey : JSONToVariant.callback F b (.key s) = some b') :
    feed (JSONToVariant.callback F) (resting state bc (.key :: stack), d + 1, b) (insertString s ++ objSep) =
      some (resting .va bc (.object :: stack), d + 1, b') := by
  have hopen : (resting state bc (.key :: stack)).char (Parser.callback (JSONToVariant.callback F)) (d + 1, b) 34 =
      some (inString bc (.key :: stack) [], d + 1, b) := by
    rcases hstate with rfl | rfl <;> rfl
  have hclose : (inString bc (.key :: stack) s.reverse).char (Parser.callback (JSONToVariant.callback F)) (d + 1, b) 34 =
      some (resting .co bc (.key :: stack), d + 1, b') := by
    have hadd : (inString bc (.key :: stack) s.reverse).addChar 34 .quote =
      some (inString bc (.key :: stack) (34 :: s.reverse)) := rfl
    have hcallback : Parser.callback (JSONToVariant.callback F) (d + 1, b) (.key s.reverse.reverse) = some (d + 1, b') := by
      unfold Parser.callback
      rw [List.reverse_reverse, hkey]
      rfl
    rw [char_action rfl hadd rfl]
    show (Parser.callback (JSONToVariant.callback F) (d + 1, b) (.key s.reverse.reverse) >>= _) = _
    rw [hcallback]
    rfl
  rw [insertString, cString_of_nulFree hs, List.cons_append, feed_cons _ hopen (Nat.succ_ne_zero d), List.append_assoc,
    feed_append (feed_escaped s), List.append_nil, List.singleton_append, feed_cons _ hclose (Nat.succ_ne_zero d)]
  rfl

end Steps

end ProcessNetwork.JSON
