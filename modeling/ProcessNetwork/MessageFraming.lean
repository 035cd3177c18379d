import ProcessNetwork.Lib.Restart
import ProcessNetwork.JSONDocuments

/-!
# Messages on a context connection

`RemoteContextDaemon::Client::Read` and `RemoteContext::EntryPoint` give what `recv` gives to a parser, which they reset when
it is done, after they have dispatched the message, or when there is an error.  The loop over a buffer is the same in both.
`DispatchMessage` throws when it cannot make anything of a message, and the exception ends the loops.  It is a parameter
here, a function of a state in which everything else that happens to the context may be.

The parser rejects the character with the error, so it is the first one after the reset.  When a new parser rejects it as
well, the loop never ends; that and an exception are the only ways in which the input is not read to its end
(`exists_parseBuffers_iff`).
-/

namespace ProcessNetwork.JSON

open Restart

/-! ### The loops -/

section Loops

variable {N : Type}

/-- `Get`. -/
def JSONToVariant.get (b : JSONToVariant N) : Except JSONError (Variant N) :=
  match b.stack with
  | v :: _ => .ok v
  | [] => .error .noValue

/-- What a message is dispatched as. -/
abbrev Message (N : Type) := Except JSONError (Variant N)

/-- How the loops end: with everything read, or with an exception of `DispatchMessage`; and the messages that they have
dispatched. -/
inductive Reading (N D : Type)
  | done (parse : Parser (JSONToVariant N)) (d : D) (messages : List (Message N))
  | thrown (messages : List (Message N))

/-- With what has been dispatched before. -/
def Reading.prepend {D : Type} (messages : List (Message N)) : Reading N D → Reading N D
  | done parse d messages' => done parse d (messages ++ messages')
  | thrown messages' => thrown (messages ++ messages')

/-- The loop over a buffer, in at most `n` rounds. -/
def parseBuffer {D : Type} (F : Numbers N) (dispatchMessage : D → Message N → Option D) :
    Nat → Parser (JSONToVariant N) → D → List Byte → Option (Reading N D)
  | _, parse, d, [] => some (.done parse d [])
  | 0, _, _, _ :: _ => none
  | n + 1, parse, d, c :: cs =>
    let (parse, numparsed) := parse.parseAll (JSONToVariant.callback F) (c :: cs)
    let buf := (c :: cs).drop numparsed
    if parse.status = .done then
      match dispatchMessage d parse.derived.get with
      | none => some (.thrown [parse.derived.get])
      | some d => (parseBuffer F dispatchMessage n (.new .new) d buf).map (.prepend [parse.derived.get])
    else if parse.status = .error then parseBuffer F dispatchMessage n (.new .new) d buf
    else parseBuffer F dispatchMessage n parse d buf

/-- The buffers of a connection one after the other. -/
def parseBuffers {D : Type} (F : Numbers N) (dispatchMessage : D → Message N → Option D) (n : Nat)
    (parse : Parser (JSONToVariant N)) (d : D) : List (List Byte) → Option (Reading N D)
  | [] => some (.done parse d [])
  | buf :: bufs =>
    match parseBuffer F dispatchMessage n parse d buf with
    | some (.done parse d messages) => (parseBuffers F dispatchMessage n parse d bufs).map (.prepend messages)
    | r => r

end Loops

/-! ### The parser as a machine that starts again -/

section Machine

variable {N : Type} {F : Numbers N} {p : Parser (JSONToVariant N)} {c : Byte} {cs : List Byte}

/-- A character, without the position in the text. -/
def take (F : Numbers N) (x : JSONParser × Nat × JSONToVariant N) (c : Byte) :
    Outcome (JSONParser × Nat × JSONToVariant N) (Message N) :=
  match x.1.char (Parser.callback (JSONToVariant.callback F)) x.2 c with
  | some y => if y.2.1 = 0 ∧ y.1.done.isSome then .finished y.2.2.get else .accepted y
  | none => .rejected

def fresh : JSONParser × Nat × JSONToVariant N := (.new true, 0, .new)

def Parser.machine (p : Parser (JSONToVariant N)) : JSONParser × Nat × JSONToVariant N := (p.parser, p.depth, p.derived)

private theorem parse_of_take (hok : p.status = .ok) :
    match take F p.machine c with
    | .accepted y => ∃ p', p.parse (JSONToVariant.callback F) c = (p', true) ∧ p'.status = .ok ∧ p'.machine = y
    | .finished o => ∃ p', p.parse (JSONToVariant.callback F) c = (p', true) ∧ p'.status = .done ∧ p'.derived.get = o
    | .rejected => ∃ p', p.parse (JSONToVariant.callback F) c = (p', false) ∧ p'.status = .error := by
  cases h : p.parser.char (Parser.callback (JSONToVariant.callback F)) (p.depth, p.derived) c with
  | none =>
    obtain ⟨p', hp', herror, _⟩ := Parser.parse_of_none hok h
    have htake : take F p.machine c = .rejected := by
      unfold take Parser.machine
      rw [h]
    rw [htake]
    exact ⟨p', hp', herror⟩
  | some y =>
    obtain ⟨jc, depth, b⟩ := y
    have htake : take F p.machine c = if depth = 0 ∧ jc.done.isSome then .finished b.get else .accepted (jc, depth, b) := by
      unfold take Parser.machine
      rw [h]
    obtain ⟨p', hp', hdepth, hb, ⟨hok', hjc, hopen⟩ | ⟨hdone, hzero, hend⟩⟩ := Parser.parse_of_some hok h
    · have hnot : ¬ (depth = 0 ∧ jc.done.isSome) := by
        rintro ⟨hzero, hsome⟩
        rw [hopen hzero] at hsome
        cases hsome
      rw [htake, if_neg hnot]
      exact ⟨p', hp', hok', by rw [Parser.machine, hdepth, hb, hjc]⟩
    · rw [htake, if_pos ⟨hzero, by rw [hend]; rfl⟩]
      exact ⟨p', hp', hdone, by rw [hb]⟩

private theorem parseAll_of_run (hok : p.status = .ok) (cs : List Byte) :
    match run (take F) p.machine cs with
    | (.accepted y, rest) => ∃ p', p.parseAll (JSONToVariant.callback F) cs = (p', cs.length) ∧ p'.status = .ok ∧
        p'.machine = y ∧ rest = []
    | (.finished o, rest) => ∃ p' n, p.parseAll (JSONToVariant.callback F) cs = (p', n) ∧ p'.status = .done ∧
        p'.derived.get = o ∧ rest = cs.drop n
    | (.rejected, rest) => ∃ p' n, p.parseAll (JSONToVariant.callback F) cs = (p', n) ∧ p'.status = .error ∧
        rest = cs.drop n := by
  induction cs generalizing p with
  | nil => exact ⟨p, rfl, hok, rfl, rfl⟩
  | cons c cs ih =>
    have hc := parse_of_take (F := F) (c := c) hok
    rw [run]
    cases htake : take F p.machine c with
    | accepted y =>
      rw [htake] at hc
      obtain ⟨q, hq, hqok, rfl⟩ := hc
      have hrest := ih hqok
      dsimp only
      revert hrest
      rcases run (take F) q.machine cs with ⟨_ | _ | _, rest⟩
      · rintro ⟨p', hp', h⟩
        exact ⟨p', by rw [Parser.parseAll, hq]; simp [hp'], h⟩
      · rintro ⟨p', n, hp', h⟩
        exact ⟨p', n + 1, by rw [Parser.parseAll, hq]; simp [hp'], h⟩
      · rintro ⟨p', n, hp', h⟩
        exact ⟨p', n + 1, by rw [Parser.parseAll, hq]; simp [hp'], h⟩
    | finished o =>
      rw [htake] at hc
      obtain ⟨q, hq, hdone, hget⟩ := hc
      have hnone : q.parseAll (JSONToVariant.callback F) cs = (q, 0) := by
        cases cs with
        | nil => rfl
        | cons c' cs =>
          rw [Parser.parseAll, Parser.parse_of_status (by rw [hdone]; decide)]
          rfl
      exact ⟨q, 1, by rw [Parser.parseAll, hq]; simp [hnone], hdone, hget, rfl⟩
    | rejected =>
      rw [htake] at hc
      obtain ⟨q, hq, herror⟩ := hc
      exact ⟨q, 0, by rw [Parser.parseAll, hq]; rfl, herror, rfl⟩

variable {D : Type} {dispatchMessage : D → Message N → Option D} {d d' : D} {p' : Parser (JSONToVariant N)}
  {messages : List (Message N)}

private theorem prepend_eq_done {ms : List (Message N)} {r : Reading N D} (h : r.prepend ms = .done p' d messages) :
    ∃ messages', r = .done p' d messages' ∧ messages = ms ++ messages' := by
  cases r with
  | done parse d messages' =>
    cases h
    exact ⟨messages', rfl, rfl⟩
  | thrown messages' => cases h

/-- A loop over a buffer that reads all of it is the loop of the machine, with every message dispatched. -/
theorem loop_of_parseBuffer (hok : p.status = .ok) {n : Nat} {buf : List Byte}
    (h : parseBuffer F dispatchMessage n p d buf = some (.done p' d' messages)) :
    p'.status = .ok ∧ loop (take F) fresh n p.machine buf = some (p'.machine, messages) ∧
      messages.foldlM dispatchMessage d = some d' := by
  induction n generalizing p d buf messages with
  | zero =>
    cases buf with
    | nil =>
      cases h
      exact ⟨hok, rfl, rfl⟩
    | cons c cs => cases h
  | succ n ih =>
    cases buf with
    | nil =>
      cases h
      exact ⟨hok, rfl, rfl⟩
    | cons c cs =>
      have hrun := parseAll_of_run (F := F) hok (c :: cs)
      rw [loop]
      generalize run (take F) p.machine (c :: cs) = x at hrun ⊢
      obtain ⟨outcome, rest⟩ := x
      cases outcome with
      | accepted y =>
        obtain ⟨q, hq, hok', rfl, rfl⟩ := hrun
        have hloop : parseBuffer F dispatchMessage (n + 1) p d (c :: cs) = parseBuffer F dispatchMessage n q d [] := by
          simp [parseBuffer, hq, hok']
        exact ih hok' (hloop ▸ h)
      | finished o =>
        obtain ⟨q, m, hq, hdone, rfl, rfl⟩ := hrun
        cases hd : dispatchMessage d q.derived.get with
        | none => simp [parseBuffer, hq, hdone, hd] at h
        | some d'' =>
          have hloop : parseBuffer F dispatchMessage (n + 1) p d (c :: cs) =
              (parseBuffer F dispatchMessage n (.new .new) d'' ((c :: cs).drop m)).map (.prepend [q.derived.get]) := by
            simp [parseBuffer, hq, hdone, hd]
          rw [hloop, Option.map_eq_some_iff] at h
          obtain ⟨r, hr, h⟩ := h
          obtain ⟨messages', rfl, rfl⟩ := prepend_eq_done h
          obtain ⟨hok', hn, hfold⟩ := ih (p := .new .new) rfl hr
          have hn : loop (take F) fresh n fresh ((c :: cs).drop m) = some (p'.machine, messages') := hn
          refine ⟨hok', by simp only [hn, Option.map_some, List.singleton_append], ?_⟩
          rw [List.singleton_append, List.foldlM_cons, hd]
          exact hfold
      | rejected =>
        obtain ⟨q, m, hq, herror, rfl⟩ := hrun
        have hloop : parseBuffer F dispatchMessage (n + 1) p d (c :: cs) =
            parseBuffer F dispatchMessage n (.new .new) d ((c :: cs).drop m) := by
          simp [parseBuffer, hq, herror]
        exact ih (p := .new .new) rfl (hloop ▸ h)

/-- A loop of the machine whose messages can all be dispatched is one over the buffer. -/
theorem exists_parseBuffer (hok : p.status = .ok) {n : Nat} {buf : List Byte} {y : JSONParser × Nat × JSONToVariant N}
    (h : loop (take F) fresh n p.machine buf = some (y, messages)) (hd : messages.foldlM dispatchMessage d = some d') :
    ∃ p', parseBuffer F dispatchMessage n p d buf = some (.done p' d' messages) ∧ p'.status = .ok ∧ p'.machine = y := by
  induction n generalizing p d buf messages with
  | zero =>
    cases buf with
    | nil =>
      cases h
      cases hd
      exact ⟨p, rfl, hok, rfl⟩
    | cons c cs => cases h
  | succ n ih =>
    cases buf with
    | nil =>
      cases h
      cases hd
      exact ⟨p, rfl, hok, rfl⟩
    | cons c cs =>
      have hrun := parseAll_of_run (F := F) hok (c :: cs)
      rw [loop] at h
      generalize run (take F) p.machine (c :: cs) = x at hrun h
      obtain ⟨outcome, rest⟩ := x
      cases outcome with
      | accepted y =>
        obtain ⟨q, hq, hok', rfl, rfl⟩ := hrun
        have hloop : parseBuffer F dispatchMessage (n + 1) p d (c :: cs) = parseBuffer F dispatchMessage n q d [] := by
          simp [parseBuffer, hq, hok']
        rw [hloop]
        exact ih hok' h hd
      | finished o =>
        obtain ⟨q, m, hq, hdone, rfl, rfl⟩ := hrun
        obtain ⟨⟨z, messages'⟩, hr, heq⟩ := Option.map_eq_some_iff.1 h
        cases heq
        rw [List.foldlM_cons] at hd
        obtain ⟨d'', hd'', hd⟩ := Option.bind_eq_some_iff.1 hd
        obtain ⟨p', hp', hrest⟩ := ih (p := .new .new) rfl hr hd
        exact ⟨p', by simp [parseBuffer, hq, hdone, hd'', hp', Reading.prepend], hrest⟩
      | rejected =>
        obtain ⟨q, m, hq, herror, rfl⟩ := hrun
        have hloop : parseBuffer F dispatchMessage (n + 1) p d (c :: cs) =
            parseBuffer F dispatchMessage n (.new .new) d ((c :: cs).drop m) := by
          simp [parseBuffer, hq, herror]
        rw [hloop]
        exact ih (p := .new .new) rfl h hd

/-- The loops over the buffers end with the scan of what is in them, if there is one and its messages can be dispatched. -/
theorem parseBuffers_of_scan {x : JSONParser × Nat × JSONToVariant N} {bufs : List (List Byte)}
    {r : (JSONParser × Nat × JSONToVariant N) × List (Message N)} (h : scan (take F) fresh x bufs.flatten = some r)
    (hd : r.2.foldlM dispatchMessage d = some d') :
    ∃ n₀, ∀ n ≥ n₀, ∀ p, p.status = .ok → p.machine = x →
      ∃ p', parseBuffers F dispatchMessage n p d bufs = some (.done p' d' r.2) := by
  induction bufs generalizing x d r with
  | nil =>
    cases h
    cases hd
    exact ⟨0, fun n _ p _ _ => ⟨p, rfl⟩⟩
  | cons buf bufs ih =>
    rw [List.flatten_cons, scan_append, Option.bind_eq_some_iff] at h
    obtain ⟨⟨y, messages⟩, hbuf, h⟩ := h
    obtain ⟨⟨z, messages'⟩, hbufs, rfl⟩ := Option.map_eq_some_iff.1 h
    rw [List.foldlM_append] at hd
    obtain ⟨d₁, hd₁, hd⟩ := Option.bind_eq_some_iff.1 hd
    obtain ⟨m, hm⟩ := exists_loop hbuf
    obtain ⟨n₀, hn₀⟩ := ih hbufs hd
    refine ⟨max (m + 1) n₀, fun n hn p hok hp => ?_⟩
    obtain ⟨q, hq, hqok, hqy⟩ := exists_parseBuffer hok (hp ▸ loop_of_le hm (le_of_max_le_left hn)) hd₁
    obtain ⟨p', hp'⟩ := hn₀ n (le_of_max_le_right hn) q hqok hqy
    exact ⟨p', by simp [parseBuffers, hq, hp', Reading.prepend]⟩

/-- When the loops over the buffers have read everything, there is a scan, and every message has been dispatched. -/
theorem scan_of_parseBuffers {bufs : List (List Byte)} {n : Nat} (hok : p.status = .ok)
    (h : parseBuffers F dispatchMessage n p d bufs = some (.done p' d' messages)) :
    scan (take F) fresh p.machine bufs.flatten = some (p'.machine, messages) ∧
      messages.foldlM dispatchMessage d = some d' := by
  induction bufs generalizing p d messages with
  | nil =>
    cases h
    exact ⟨rfl, rfl⟩
  | cons buf bufs ih =>
    rw [parseBuffers] at h
    split at h
    · rename_i q d₁ messages₁ hbuf
      obtain ⟨r, hr, h⟩ := Option.map_eq_some_iff.1 h
      obtain ⟨messages', rfl, rfl⟩ := prepend_eq_done h
      obtain ⟨hqok, hloop, hd₁⟩ := loop_of_parseBuffer hok hbuf
      obtain ⟨hscan, hd⟩ := ih hqok hr
      refine ⟨?_, ?_⟩
      · rw [List.flatten_cons, scan_append, scan_of_loop hloop, Option.bind_some, hscan]
        rfl
      · rw [List.foldlM_append, hd₁]
        exact hd
    · rename_i hnot
      exact absurd h (hnot _ _ _)

end Machine

/-! ### Documents -/

section Documents

variable {N : Type} {F : Numbers N} {x : JSONParser × Nat × JSONToVariant N} {doc rest input : List Byte}
  {docs : List (List Byte)} {r : (JSONParser × Nat × JSONToVariant N) × List (Message N)}

private theorem take_fresh_eq_rejected {c : Byte} : take F fresh c = .rejected ↔ ¬ Opens c := by
  constructor
  · intro h hopens
    simp only [Opens, List.mem_cons, List.not_mem_nil, or_false] at hopens
    rcases hopens with rfl | rfl | rfl | rfl | rfl | rfl | rfl <;> cases h
  · intro hopens
    have htable : ∀ c : Byte, ¬ Opens c → (charClass c).map (transition .go) ∈ [none, some .xx] := by
      apply forall_byte
      decide +kernel
    have := htable c hopens
    have hadd (cls : CharClass) : ∃ jc, (JSONParser.new true).addChar c cls = some jc ∧ jc.state = .go := by
      have hescaped : ¬ (JSONParser.new true).escaped = true := Bool.false_ne_true
      unfold JSONParser.addChar
      rw [if_neg hescaped]
      split_ifs <;> exact ⟨_, rfl, rfl⟩
    unfold take JSONParser.char
    cases hcls : charClass c with
    | none => rfl
    | some cls =>
      obtain ⟨jc, hjc, hgo⟩ := hadd cls
      rw [hcls] at this
      have hxx : transition .go cls = .xx := by simpa using this
      simp [fresh, hjc, hgo, hxx]

private theorem take_fresh_of_blank {c : Byte} (h : c ∈ [32, 9, 10, 13]) : take F fresh c = .accepted fresh := by
  simp only [List.mem_cons, List.not_mem_nil, or_false] at h
  rcases h with rfl | rfl | rfl | rfl <;> rfl

/-- The first characters of a document. -/
theorem document_head : ∀ c : Byte, ((JSONParser.new false).char (Parser.callback acceptAll) (0, ()) c).isSome →
    c ∈ [32, 9, 10, 13, 91, 123] := by
  apply forall_byte
  decide +kernel

/-- A document that goes through the scan is dispatched. -/
theorem scan_of_document {q : Parser Unit} (hok : q.status = .ok) (hq : q.parser = x.1.withComments false)
    (hdepth : q.depth = x.2.1) (hx : x.2.2.stack ≠ [] ∨ x = fresh) (hdone : (q.parseAll acceptAll doc).1.status = .done)
    (hlen : (q.parseAll acceptAll doc).2 = doc.length) (hscan : scan (take F) fresh x (doc ++ rest) = some r) :
    ∃ v messages, run (take F) x doc = (.finished (.ok v), []) ∧ scan (take F) fresh fresh rest = some (r.1, messages) ∧
      r.2 = .ok v :: messages := by
  induction doc generalizing q x with
  | nil =>
    rw [Parser.parseAll, hok] at hdone
    cases hdone
  | cons c cs ih =>
    obtain ⟨jc, depth, b⟩ := x
    dsimp only at hq hdepth
    cases hchar : q.parser.char (Parser.callback acceptAll) (q.depth, q.derived) c with
    | none =>
      obtain ⟨q', hq', _⟩ := Parser.parse_of_none hok hchar
      rw [Parser.parseAll, hq'] at hlen
      cases hlen
    | some y =>
      obtain ⟨jc', depth', u⟩ := y
      obtain ⟨q', hparse, hdepth', _, hend⟩ := Parser.parse_of_some hok hchar
      rw [Parser.parseAll, hparse] at hdone hlen
      dsimp only at hdone hlen
      rw [if_pos rfl] at hdone hlen
      have hlen' : (q'.parseAll acceptAll cs).2 = cs.length := Nat.succ.inj hlen
      rw [hq, hdepth] at hchar
      cases hreal : jc.char (Parser.callback (JSONToVariant.callback F)) (depth, b) c with
      | none =>
        -- the variant cannot be built, and nothing can begin with the character
        have hrejected : take F (jc, depth, b) c = .rejected := by
          unfold take
          rw [hreal]
        have hfresh : take F fresh c = .rejected :=
          take_fresh_eq_rejected.2 (not_opens_of_rejected (Option.isSome_of_eq_some hchar) hreal)
        rw [List.cons_append, scan, retry_of_rejected hrejected, hfresh] at hscan
        cases hscan
      | some z =>
        obtain ⟨rfl, rfl⟩ := char_of_document hchar hreal
        have hz : z.2.2.stack ≠ [] ∨ z = fresh := by
          rcases hx with hx | hx
          · exact .inl (char_stack_ne_nil hx hreal)
          · cases hx
            have hhead := document_head c (Option.isSome_of_eq_some hchar)
            simp only [List.mem_cons, List.not_mem_nil, or_false] at hhead
            rcases hhead with rfl | rfl | rfl | rfl | rfl | rfl <;> cases hreal
            iterate 4 exact .inr rfl
            iterate 2 exact .inl (List.cons_ne_nil _ _)
        rw [withComments_done] at hend
        rcases hend with ⟨hok', hparser, hopen⟩ | ⟨hdone', hzero, hfinish⟩
        · have htake : take F (jc, depth, b) c = .accepted z := by
            have hnot : ¬ (z.2.1 = 0 ∧ z.1.done.isSome) := by
              rintro ⟨hzero, hsome⟩
              have := hopen hzero
              rw [Option.map_eq_none_iff] at this
              rw [this] at hsome
              cases hsome
            unfold take
            rw [hreal]
            exact if_neg hnot
          rw [List.cons_append, scan, retry_of_accepted htake] at hscan
          obtain ⟨v, messages, hrun, hrest⟩ := ih hok' hparser hdepth' hz hdone hlen' hscan
          exact ⟨v, messages, by rw [run, htake]; exact hrun, hrest⟩
        · have hcs : cs = [] := by
            cases cs with
            | nil => rfl
            | cons c' cs =>
              rw [Parser.parseAll, Parser.parse_of_status (by rw [hdone']; decide)] at hlen'
              cases hlen'
          subst hcs
          have hsome : z.1.done.isSome := by
            rw [Option.map_eq_some_iff] at hfinish
            obtain ⟨_, hfinish, _⟩ := hfinish
            exact Option.isSome_of_eq_some hfinish
          obtain ⟨v, hv⟩ : ∃ v, z.2.2.get = .ok v := by
            rcases hz with hz | rfl
            · unfold JSONToVariant.get
              cases hstack : z.2.2.stack with
              | nil => exact absurd hstack hz
              | cons v stack => exact ⟨v, rfl⟩
            · cases hsome
          have htake : take F (jc, depth, b) c = .finished (.ok v) := by
            unfold take
            rw [hreal, ← hv]
            exact if_pos ⟨hzero, hsome⟩
          rw [List.cons_append, List.nil_append, scan, retry_of_finished htake] at hscan
          obtain ⟨r', hr', rfl⟩ := Option.map_eq_some_iff.1 hscan
          exact ⟨v, r'.2, by rw [run, htake], hr', rfl⟩

/-- What `VariantFromJSON` makes of a document. -/
theorem variantFromJSON_of_run {v : Variant N} (h : run (take F) fresh doc = (.finished (.ok v), [])) :
    variantFromJSON F doc = .ok v := by
  have hparse := parseAll_of_run (F := F) (p := .new .new) rfl doc
  have hmachine : Parser.machine (.new (.new : JSONToVariant N)) = fresh := rfl
  rw [hmachine, h] at hparse
  obtain ⟨p', n, hp', hdone, hget, _⟩ := hparse
  unfold variantFromJSON
  dsimp only
  rw [hp', if_pos hdone]
  exact hget

/-- Documents with white space before, between and after them. -/
inductive Documents : List (List Byte) → List Byte → Prop
  | nil {ws : List Byte} (hws : ∀ c ∈ ws, c ∈ [32, 9, 10, 13]) : Documents [] ws
  | cons {ws doc : List Byte} {docs : List (List Byte)} {rest : List Byte} (hws : ∀ c ∈ ws, c ∈ [32, 9, 10, 13])
      (hdoc : Document doc) (hrest : Documents docs rest) : Documents (doc :: docs) (ws ++ (doc ++ rest))

private theorem scan_blank {ws : List Byte} (hws : ∀ c ∈ ws, c ∈ [32, 9, 10, 13]) (rest : List Byte) :
    scan (take F) fresh fresh (ws ++ rest) = scan (take F) fresh fresh rest := by
  induction ws with
  | nil => rfl
  | cons c ws ih =>
    rw [List.forall_mem_cons] at hws
    rw [List.cons_append, scan, retry_of_accepted (take_fresh_of_blank hws.1)]
    exact ih hws.2

private theorem messages_of_documents (h : Documents docs input) (hscan : scan (take F) fresh fresh input = some r) :
    r.2 = docs.map (variantFromJSON F) ∧ ∀ doc ∈ docs, ∃ v, variantFromJSON F doc = .ok v := by
  induction h generalizing r with
  | @nil ws hws =>
    have := scan_blank (F := F) hws []
    rw [List.append_nil, hscan] at this
    cases this
    exact ⟨rfl, fun doc hdoc => absurd hdoc List.not_mem_nil⟩
  | cons hws hdoc hrest ih =>
    rw [scan_blank hws] at hscan
    obtain ⟨hdone, hlen⟩ := hdoc
    obtain ⟨v, messages, hrun, hscan', hmessages⟩ := scan_of_document rfl rfl rfl (.inr rfl) hdone hlen hscan
    have hv := variantFromJSON_of_run hrun
    obtain ⟨hdocs, hok⟩ := ih hscan'
    dsimp only at hdocs
    rw [hmessages, List.map_cons, hv, hdocs]
    exact ⟨rfl, List.forall_mem_cons.2 ⟨⟨v, hv⟩, hok⟩⟩

end Documents

/-! ### The framing -/

section Framing

variable {N D : Type} {F : Numbers N} {dispatchMessage : D → Message N → Option D} {d d' : D} {input pre : List Byte}
  {c : Byte}
  {message : Message N}

/-- After the bytes `pre`, the byte `c` is accepted; or the message that it finishes is dispatched without an exception, when
those before it have been; or the parser rejects it, and it is one with which a text can begin. -/
def Proceeds (F : Numbers N) (dispatchMessage : D → Message N → Option D) (d : D) (pre : List Byte) (c : Byte) : Prop :=
  match take F (after (take F) fresh fresh pre) c with
  | .accepted _ => True
  | .finished message => ∀ d', (outputs (take F) fresh fresh pre).foldlM dispatchMessage d = some d' →
      (dispatchMessage d' message).isSome
  | .rejected => Opens c

/-- A new parser accepts or rejects its first byte. -/
theorem take_fresh_ne_finished : take F fresh c ≠ .finished message := by
  intro h
  by_cases hopens : Opens c
  · simp only [Opens, List.mem_cons, List.not_mem_nil, or_false] at hopens
    rcases hopens with rfl | rfl | rfl | rfl | rfl | rfl | rfl <;> cases h
  · rw [take_fresh_eq_rejected.2 hopens] at h
    cases h

private theorem retry_eq_finished {x : JSONParser × Nat × JSONToVariant N} :
    retry (take F) fresh x c = .finished message ↔ take F x c = .finished message := by
  cases h : take F x c with
  | accepted y => rw [retry_of_accepted h]
  | finished o => rw [retry_of_finished h]
  | rejected =>
    rw [retry_of_rejected h]
    exact ⟨fun hf => absurd hf take_fresh_ne_finished, nofun⟩

private theorem proceeds_iff : Proceeds F dispatchMessage d pre c ↔
    (take F (after (take F) fresh fresh pre) c = .rejected → take F fresh c ≠ .rejected) ∧
    ∀ message d', retry (take F) fresh (after (take F) fresh fresh pre) c = .finished message →
      (outputs (take F) fresh fresh pre).foldlM dispatchMessage d = some d' → (dispatchMessage d' message).isSome := by
  simp only [retry_eq_finished, ne_eq, take_fresh_eq_rejected, not_not]
  unfold Proceeds
  cases take F (after (take F) fresh fresh pre) c with
  | accepted y => exact ⟨fun _ => ⟨nofun, nofun⟩, fun _ => trivial⟩
  | finished o =>
    refine ⟨fun h => ⟨nofun, fun message d' ho => ?_⟩, fun h d' => h.2 o d' rfl⟩
    cases ho
    exact h d'
  | rejected => exact ⟨fun h => ⟨fun _ => h, nofun⟩, fun h => h.1 rfl⟩

private theorem exists_parseBuffers_iff_scan :
    (∃ messages, (∀ bufs : List (List Byte), bufs.flatten = input →
        ∃ n parse d', parseBuffers F dispatchMessage n (.new .new) d bufs = some (.done parse d' messages)) ∧
      ∀ docs, Documents docs input →
        messages = docs.map (variantFromJSON F) ∧ ∀ doc ∈ docs, ∃ v, variantFromJSON F doc = .ok v) ↔
    (scan (take F) fresh fresh input).isSome ∧ ((outputs (take F) fresh fresh input).foldlM dispatchMessage d).isSome := by
  constructor
  · rintro ⟨messages, hbufs, _⟩
    obtain ⟨n, parse, d', h⟩ := hbufs [input] (by simp)
    obtain ⟨hscan, hd⟩ := scan_of_parseBuffers rfl h
    rw [List.flatten_singleton] at hscan
    have hout : messages = outputs (take F) fresh fresh input := outputs_of_scan hscan
    exact ⟨Option.isSome_of_eq_some hscan, hout ▸ Option.isSome_of_eq_some hd⟩
  · rintro ⟨h, hd⟩
    obtain ⟨r, hr⟩ := Option.isSome_iff_exists.1 h
    obtain ⟨d', hd⟩ := Option.isSome_iff_exists.1 hd
    rw [← outputs_of_scan hr] at hd
    refine ⟨r.2, fun bufs hbufs => ?_, fun docs hdocs => messages_of_documents hdocs hr⟩
    rw [← hbufs] at hr
    obtain ⟨n, hn⟩ := parseBuffers_of_scan hr hd
    obtain ⟨p', hp'⟩ := hn n le_rfl (.new .new) rfl rfl
    exact ⟨n, p', d', hp'⟩

end Framing

/-- The loops read every input to its end, and dispatch the documents there are, just if no character that the parser rejects
would be rejected by a new one, and no message that is finished makes `DispatchMessage` throw. -/
theorem exists_parseBuffers_iff {N D : Type} (F : Numbers N) (dispatchMessage : D → Message N → Option D) (d : D)
    (input : List Byte) :
    (∃ messages, (∀ bufs : List (List Byte), bufs.flatten = input →
        ∃ n parse d', parseBuffers F dispatchMessage n (.new .new) d bufs = some (.done parse d' messages)) ∧
      ∀ docs, Documents docs input →
        messages = docs.map (variantFromJSON F) ∧ ∀ doc ∈ docs, ∃ v, variantFromJSON F doc = .ok v) ↔
    ∀ pre c post, input = pre ++ c :: post → Proceeds F dispatchMessage d pre c := by
  rw [exists_parseBuffers_iff_scan, isSome_scan, isSome_foldlM_outputs]
  simp only [proceeds_iff]
  exact ⟨fun h pre c post heq => ⟨h.1 pre c post heq, h.2 pre c post heq⟩,
    fun h => ⟨fun pre c post heq => (h pre c post heq).1, fun pre c post heq => (h pre c post heq).2⟩⟩

/-- The loops do not end on an `x`, whatever is done with messages. -/
theorem not_forall_parseBuffers : ¬ ∀ bufs : List (List Byte), ∃ n r,
    parseBuffers (⟨id, fun _ => 0⟩ : Numbers Int) (fun (d : Unit) _ => some d) n (.new .new) () bufs = some r := by
  intro h
  have hloop (n : Nat) : parseBuffer (⟨id, fun _ => 0⟩ : Numbers Int) (fun (d : Unit) _ => some d) n (.new .new) ()
      (bytes "x") = none := by
    induction n with
    | zero => rfl
    | succ n ih => exact ih
  obtain ⟨n, r, hn⟩ := h [bytes "x"]
  rw [parseBuffers, hloop] at hn
  cases hn

end ProcessNetwork.JSON
