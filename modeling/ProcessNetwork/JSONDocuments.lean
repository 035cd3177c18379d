import ProcessNetwork.JSONReading

/-!
# Documents

A document is a text that `JSON_parser.c` takes for JSON, with comments off and whatever the values in it are.  The parser
of the messages allows comments and builds a variant.  It stays with the other one up to a character at which the variant
cannot be built, and that character is none with which a text can begin (`not_opens_of_rejected`).
-/

namespace ProcessNetwork.JSON

/-! ### Comments -/

def JSONParser.withComments (allow : Bool) (jc : JSONParser) : JSONParser := { jc with allowComments := allow }

section Comments

variable {σ : Type} {callback : σ → Event → Option σ} {jc jc' : JSONParser} {s s' : σ} {allow : Bool}

private theorem withComments_pop (m : Mode) :
    (jc.withComments allow).pop m = (jc.pop m).map (JSONParser.withComments allow) := by
  obtain ⟨_, _, _, _, _, _, _, stack, _⟩ := jc
  cases stack with
  | nil => rfl
  | cons m' stack =>
    unfold JSONParser.pop JSONParser.withComments
    dsimp only
    split_ifs <;> rfl

private theorem withComments_addEscapedChar (c : Byte) :
    (jc.withComments allow).addEscapedChar c = (jc.addEscapedChar c).map (JSONParser.withComments allow) := by
  have hfirst : { jc.withComments allow with escaped := false }.parseBufferPopBackChar =
      { jc with escaped := false }.parseBufferPopBackChar.withComments allow := rfl
  have hpush (jc : JSONParser) (c : Byte) : (jc.withComments allow).parseBufferPushBackChar c =
      (jc.parseBufferPushBackChar c).withComments allow := rfl
  unfold JSONParser.addEscapedChar
  simp only [hfirst, hpush, apply_ite (Option.map _), Option.map_some, Option.map_none]

private theorem withComments_addChar (c : Byte) (cls : CharClass) :
    (jc.withComments allow).addChar c cls = (jc.addChar c cls).map (JSONParser.withComments allow) := by
  unfold JSONParser.addChar
  rw [withComments_addEscapedChar, apply_ite (Option.map _), apply_ite (Option.map _)]
  rfl

private theorem withComments_decodeUnicodeChar :
    (jc.withComments allow).decodeUnicodeChar = jc.decodeUnicodeChar.map (JSONParser.withComments allow) := by
  unfold JSONParser.decodeUnicodeChar
  simp only [JSONParser.withComments]
  split
  · simp only [apply_ite (Option.map _), Option.map_some, Option.map_none]
    rfl
  · rfl

private theorem withComments_parseParseBuffer : JSONParser.parseParseBuffer callback (jc.withComments allow) s =
    (JSONParser.parseParseBuffer callback jc s).map fun r => (r.1.withComments allow, r.2) := by
  have hevent : (jc.withComments allow).valueEvent = jc.valueEvent := rfl
  unfold JSONParser.parseParseBuffer
  rw [hevent]
  cases jc.valueEvent with
  | none => rfl
  | some event =>
    cases h : callback s event with
    | none => simp [h]
    | some s' =>
      simp only [h, Option.map_some]
      rfl

private theorem act_of_withoutComments {a : Action} (h : (jc.withComments false).act callback s a = some (jc', s')) :
    ∃ jc'', jc.act callback s a = some (jc'', s') ∧ jc' = jc''.withComments false := by
  -- an action reads the flag only to begin a comment (`cb`), which the parser without comments refuses
  have hpop (jc : JSONParser) : (jc.withComments false).parseBufferPopBackChar =
      jc.parseBufferPopBackChar.withComments false := rfl
  cases a with
  | ex | mx | zx | ix | de | df | sb | nu | fa | tr | ce =>
    cases h
    exact ⟨_, rfl, rfl⟩
  | cb => cases h
  | uc =>
    rw [JSONParser.act, withComments_decodeUnicodeChar] at h
    simp only [Option.bind_eq_bind, Option.bind_eq_some_iff, Option.map_eq_some_iff] at h
    obtain ⟨_, ⟨jc₁, hjc, rfl⟩, heq⟩ := h
    cases heq
    exact ⟨_, by rw [JSONParser.act, hjc]; rfl, rfl⟩
  | cl =>
    rw [JSONParser.act, hpop, withComments_pop] at h
    simp only [Option.bind_eq_bind, Option.bind_eq_some_iff, Option.map_eq_some_iff] at h
    obtain ⟨_, ⟨jc₁, hjc, rfl⟩, heq⟩ := h
    cases heq
    exact ⟨_, by rw [JSONParser.act, hjc]; rfl, rfl⟩
  | oo | ao =>
    simp only [JSONParser.act, Option.bind_eq_bind, Option.bind_eq_some_iff] at h
    obtain ⟨s₁, hs, heq⟩ := h
    cases heq
    exact ⟨_, by rw [JSONParser.act, hs]; rfl, rfl⟩
  | oe =>
    have hclear : (jc.withComments false).parseBufferClear = jc.parseBufferClear.withComments false := rfl
    rw [JSONParser.act, hclear, withComments_pop] at h
    simp only [Option.bind_eq_bind, Option.bind_eq_some_iff, Option.map_eq_some_iff] at h
    obtain ⟨s₁, hs, _, ⟨jc₁, hjc, rfl⟩, heq⟩ := h
    cases heq
    exact ⟨_, by rw [JSONParser.act, hs, Option.bind_eq_bind, Option.bind_some, hjc]; rfl, rfl⟩
  | oc | ac =>
    rw [JSONParser.act, hpop, withComments_parseParseBuffer] at h
    simp only [Option.bind_eq_bind, Option.bind_eq_some_iff, Option.map_eq_some_iff] at h
    obtain ⟨_, ⟨⟨jc₁, s₁⟩, hbuf, rfl⟩, s₂, hs, jc₂, hjc, heq⟩ := h
    rw [withComments_pop, Option.map_eq_some_iff] at hjc
    obtain ⟨jc₃, hjc, rfl⟩ := hjc
    cases heq
    refine ⟨{ jc₃ with type := .none, state := .ok }, ?_, rfl⟩
    simp only [JSONParser.act, hbuf, Option.bind_eq_bind, Option.bind_some, hs, hjc]
  | se =>
    have hstack : (jc.withComments false).parseBufferPopBackChar.stack = jc.parseBufferPopBackChar.stack := rfl
    simp only [JSONParser.act, hstack] at h ⊢
    split at h
    · simp only [Option.bind_eq_bind, Option.bind_eq_some_iff] at h ⊢
      obtain ⟨s₁, hs, heq⟩ := h
      cases heq
      exact ⟨_, ⟨s', hs, rfl⟩, rfl⟩
    iterate 2
      · rw [hpop, withComments_parseParseBuffer] at h
        simp only [Option.bind_eq_bind, Option.bind_eq_some_iff, Option.map_eq_some_iff] at h ⊢
        obtain ⟨_, ⟨⟨jc₁, s₁⟩, hbuf, rfl⟩, heq⟩ := h
        cases heq
        exact ⟨_, ⟨_, hbuf, rfl⟩, rfl⟩
    · cases h
  | cm =>
    rw [JSONParser.act, hpop, withComments_parseParseBuffer] at h
    simp only [JSONParser.act, Option.bind_eq_bind, Option.bind_eq_some_iff, Option.map_eq_some_iff] at h ⊢
    obtain ⟨_, ⟨⟨jc₁, s₁⟩, hbuf, rfl⟩, h⟩ := h
    have hstack : (jc₁.withComments false).stack = jc₁.stack := rfl
    simp only [hstack] at h
    split at h
    · rename_i hm
      rw [withComments_pop] at h
      simp only [Option.bind_eq_some_iff, Option.map_eq_some_iff] at h
      obtain ⟨_, ⟨jc₂, hjc, rfl⟩, heq⟩ := h
      cases heq
      refine ⟨{ jc₂.push .key with type := .none, state := .ke }, ⟨_, hbuf, ?_⟩, rfl⟩
      simp only [hm, hjc, Option.bind_some]
    · rename_i hm
      cases h
      refine ⟨{ jc₁ with type := .none, state := .va }, ⟨_, hbuf, ?_⟩, rfl⟩
      simp only [hm]
    · cases h

/-- What the parser accepts with comments off, it accepts with comments on. -/
theorem char_of_withoutComments {c : Byte} (h : (jc.withComments false).char callback s c = some (jc', s')) :
    ∃ jc'', jc.char callback s c = some (jc'', s') ∧ jc' = jc''.withComments false := by
  simp only [JSONParser.char, Option.bind_eq_bind, Option.bind_eq_some_iff, withComments_addChar,
    Option.map_eq_some_iff] at h ⊢
  obtain ⟨cls, hcls, _, ⟨jc₁, hadd, rfl⟩, h⟩ := h
  have hstate : (jc₁.withComments false).state = jc₁.state := rfl
  rw [hstate] at h
  cases htr : transition jc₁.state cls with
  | xx =>
    rw [htr] at h
    cases h
  | state state =>
    rw [htr] at h
    cases h
    exact ⟨_, ⟨cls, hcls, jc₁, hadd, by rw [htr]⟩, rfl⟩
  | action a =>
    rw [htr] at h
    obtain ⟨jc'', hact, heq⟩ := act_of_withoutComments h
    exact ⟨jc'', ⟨cls, hcls, jc₁, hadd, by rw [htr]; exact hact⟩, heq⟩

theorem withComments_done : (jc.withComments allow).done = jc.done.map (JSONParser.withComments allow) := by
  have hstate : (jc.withComments allow).state = jc.state := rfl
  unfold JSONParser.done
  rw [hstate, withComments_pop, apply_ite (Option.map _)]
  rfl

end Comments

/-! ### Documents -/

/-- A callback that accepts every value. -/
def acceptAll (_ : Unit) (_ : Event) : Option Unit := some ()

/-- The parser, with comments off, is done with the last character of the text. -/
def Document (doc : List Byte) : Prop :=
  let r := Parser.parseAll acceptAll ⟨.new false, .ok, 1, 0, 0, ()⟩ doc
  r.1.status = .done ∧ r.2 = doc.length

example : Document (bytes "[1, -2.5e3, [\"a\", null], [true]]") := by
  unfold Document
  decide +kernel

/-- What a new parser accepts: white space, `[`, `{` and `/`. -/
def Opens (c : Byte) : Prop := c ∈ [32, 9, 10, 13, 91, 123, 47]

instance : DecidablePred Opens := fun c => inferInstanceAs (Decidable (c ∈ _))

private theorem charClass_of_opens : ∀ c : Byte, Opens c →
    charClass c ∈ [some CharClass.space, some .white, some .lsqrb, some .lcurb, some .slash] := by
  apply forall_byte
  decide +kernel

/-- In no state do these characters end a value. -/
theorem action_of_opens {cls : CharClass} (hcls : cls ∈ [CharClass.space, .white, .lsqrb, .lcurb, .slash]) {s : State}
    {a : Action} (h : transition s cls = .action a) : a ∈ [Action.oo, .ao, .cb, .ce] := by
  have htable : ∀ cls ∈ [CharClass.space, .white, .lsqrb, .lcurb, .slash],
      (match transition s cls with
      | .action a => decide (a ∈ [Action.oo, .ao, .cb, .ce])
      | _ => true) = true := by
    cases s <;> decide
  have := htable cls hcls
  rw [h] at this
  exact of_decide_eq_true this

section Variants

variable {N : Type} {F : Numbers N} {jc jc' : JSONParser} {d d' : Nat} {b b' : JSONToVariant N} {c : Byte}

/-- What the other parser accepts and this one does not is no beginning of a text. -/
theorem not_opens_of_rejected (h : ((jc.withComments false).char (Parser.callback acceptAll) (d, ()) c).isSome)
    (hreal : jc.char (Parser.callback (JSONToVariant.callback F)) (d, b) c = none) : ¬ Opens c := by
  intro hopens
  obtain ⟨⟨jc', ctx⟩, h⟩ := Option.isSome_iff_exists.1 h
  simp only [JSONParser.char, Option.bind_eq_bind, Option.bind_eq_some_iff, withComments_addChar,
    Option.map_eq_some_iff] at h
  obtain ⟨cls, hcls, _, ⟨jc₁, hadd, rfl⟩, h⟩ := h
  have hstate : (jc₁.withComments false).state = jc₁.state := rfl
  rw [hstate] at h
  cases htr : transition jc₁.state cls with
  | xx =>
    rw [htr] at h
    cases h
  | state state =>
    rw [char_state hcls hadd htr] at hreal
    cases hreal
  | action a =>
    rw [char_action hcls hadd htr] at hreal
    rw [htr] at h
    have hmem : cls ∈ [CharClass.space, .white, .lsqrb, .lcurb, .slash] := by
      have := charClass_of_opens c hopens
      rw [hcls] at this
      simpa using this
    have ha := action_of_opens hmem htr
    simp only [List.mem_cons, List.not_mem_nil, or_false] at ha
    rcases ha with rfl | rfl | rfl | rfl
    · cases hreal
    · cases hreal
    · cases h
    · cases hreal

/-- The parser of the messages stays with the other one as long as it accepts. -/
theorem char_of_document (h : (jc.withComments false).char (Parser.callback acceptAll) (d, ()) c = some (jc', d', ()))
    {r : JSONParser × Nat × JSONToVariant N}
    (hreal : jc.char (Parser.callback (JSONToVariant.callback F)) (d, b) c = some r) :
    jc' = r.1.withComments false ∧ d' = r.2.1 := by
  obtain ⟨jc'', hchar, rfl⟩ := char_of_withoutComments h
  have hfollows : Follows (fun (ctx : Nat × JSONToVariant N) (ctx' : Nat × Unit) => ctx.1 = ctx'.1)
      (Parser.callback (JSONToVariant.callback F)) (Parser.callback acceptAll) := by
    rintro ⟨d, b⟩ ⟨_, _⟩ event ctx rfl hcallback
    obtain ⟨b', _, rfl⟩ := Option.map_eq_some_iff.1 hcallback
    cases event <;> exact ⟨_, rfl, rfl⟩
  obtain ⟨ctx', hctx', hdepth⟩ := hfollows.char (t := (d, ())) rfl hreal
  rw [hchar] at hctx'
  cases hctx'
  exact ⟨rfl, hdepth.symm⟩

/-! ### The variant under construction -/

theorem addValue_stack_ne_nil {v : Variant N} (h : b.addValue v = some b') : b'.stack ≠ [] := by
  unfold JSONToVariant.addValue at h
  split at h
  · split at h
    · cases h
    · split_ifs at h
      cases h
      exact List.cons_ne_nil _ _
  · cases h
    exact List.cons_ne_nil _ _
  · cases h
    exact List.cons_ne_nil _ _

private theorem callback_stack_ne_nil {event : Event} (h : JSONToVariant.callback F b event = some b') : b'.stack ≠ [] := by
  cases event with
  | arrayBegin | objectBegin =>
    cases h
    exact List.cons_ne_nil _ _
  | arrayEnd | objectEnd =>
    simp only [JSONToVariant.callback] at h
    split at h
    · exact addValue_stack_ne_nil h
    · cases h
  | integer | float | null | true | false | string => exact addValue_stack_ne_nil h
  | key s =>
    simp only [JSONToVariant.callback] at h
    split at h
    · rename_i hstack
      cases h
      rw [hstack]
      exact List.cons_ne_nil _ _
    · cases h

theorem char_stack_ne_nil (hb : b.stack ≠ []) {r : JSONParser × Nat × JSONToVariant N}
    (h : jc.char (Parser.callback (JSONToVariant.callback F)) (d, b) c = some r) : r.2.2.stack ≠ [] := by
  have hfollows : Follows (fun (ctx : Nat × JSONToVariant N) (_ : Unit) => ctx.2.stack ≠ [])
      (Parser.callback (JSONToVariant.callback F)) fun _ _ => some () := by
    intro ctx _ event ctx' _ hcallback
    obtain ⟨b', hb', rfl⟩ := Option.map_eq_some_iff.1 hcallback
    refine ⟨(), rfl, ?_⟩
    have := callback_stack_ne_nil hb'
    cases event <;> exact this
  obtain ⟨_, _, hr⟩ := hfollows.char (t := ()) hb h
  exact hr

end Variants

end ProcessNetwork.JSON
