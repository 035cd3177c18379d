import ProcessNetwork.VariantCompare

/-!
# Merged configurations

The functions of `VariantCPNLoader.cc` that add nodes and queues to a configuration and merge configurations, and
`Validate`.  Each leaves a configuration behind also when an assertion of it fails, and then gives `false`.  A node that
has the name of one in the list overwrites that one; a queue overwrites the first one in the list that has its reader or
its writer, and nothing looks for a second one (`Fits`).
-/

namespace ProcessNetwork.VariantCPNLoader

open Variant

abbrev Key := List Byte

variable {N : Type}

/-! ### `AddNode` and `AddQueue` -/

section

variable [PartialOrder N] [DecidableLT N] (F : NumberFormat N)

/-- `v[k] == entry.At(k)`: what becomes of the two values, and the result, `none` when an assertion fails. -/
def sameAt (k : Key) (v entry : Variant N) : Variant N × Variant N × Option Bool :=
  match v.touch k, entry.touch k with
  | some v, some entry => (v, entry, (compare F (v.member k) (entry.member k)).map fun c => c == 0)
  | v', entry' => (v'.getD v, entry'.getD entry, none)

def sameBoth (k k' : Key) (v entry : Variant N) : Variant N × Variant N × Option Bool :=
  match sameAt F k v entry with
  | (v, entry, some true) => sameAt F k' v entry
  | r => r

def sameNode (v entry : Variant N) : Variant N × Variant N × Option Bool := sameAt F (bytes "name") v entry

def sameQueue (v entry : Variant N) : Variant N × Variant N × Option Bool :=
  match sameBoth F (bytes "readernode") (bytes "readerport") v entry with
  | (v, entry, some false) => sameBoth F (bytes "writernode") (bytes "writerport") v entry
  | r => r

/-- Each member of `v` is put into the entry. -/
def overwrite (entry v : Variant N) : Variant N :=
  object ((v.asObject.getD []).foldl (fun m e => Dictionary.insert e.1 e.2.copy m) (entry.asObject.getD []))

/-- The loop over the entries, with what becomes of `v` and of the entries; `some true` when an entry was overwritten. -/
def addTo (same : Variant N → Variant N → Variant N × Variant N × Option Bool) (v : Variant N) :
    List (Variant N) → Variant N × List (Variant N) × Option Bool
  | [] => (v, [], some false)
  | entry :: entries =>
    match same v entry with
    | (v, entry, none) => (v, entry :: entries, none)
    | (v, entry, some true) => (v, overwrite entry v :: entries, some true)
    | (v, entry, some false) =>
      let r := addTo same v entries
      (r.1, entry :: r.2.1, r.2.2)

/-- The array at `list`, which is made when there is none, and the entry `v` in it or at its end. -/
def addEntry (list : Key) (same : Variant N → Variant N → Variant N × Variant N × Option Bool) (config v : Variant N) :
    Variant N × Bool :=
  match config.asObject with
  | none => (config, false)
  | some m =>
    let entries := ((object m).member list).asArray.getD []
    match addTo same v entries with
    | (_, entries, some true) => (object (Dictionary.insert list (array entries) m), true)
    | (v, entries, some false) => (object (Dictionary.insert list (array (entries ++ [v.copy])) m), true)
    | (_, entries, none) => (object (Dictionary.insert list (array entries) m), false)

def addNode (config v : Variant N) : Variant N × Bool := addEntry (bytes "nodes") (sameNode F) config v

def addQueue (config v : Variant N) : Variant N × Bool := addEntry (bytes "queues") (sameQueue F) config v

/-! ### `MergeConfig` -/

/-- A loop, which ends when an assertion fails. -/
def forEach {α : Type} (f : Variant N → α → Variant N × Bool) (config : Variant N) : List α → Variant N × Bool
  | [] => (config, true)
  | a :: l =>
    match f config a with
    | (config, true) => forEach f config l
    | r => r

def setConfig (config : Variant N) (e : Key × Variant N) : Variant N × Bool :=
  match config.asObject with
  | none => (config, false)
  | some m => (object (Dictionary.insert e.1 e.2 m), true)

def setContext (config : Variant N) (e : Key × Variant N) : Variant N × Bool :=
  match (config.member (bytes "context")).asObject with
  | none => (config, false)
  | some context => setConfig config (bytes "context", object (Dictionary.insert e.1 e.2 context))

def mergeMember (config : Variant N) (e : Key × Variant N) : Variant N × Bool :=
  if e.1 = bytes "context" then
    match e.2.asObject with
    | none => (config, false)
    | some context => forEach setContext config context
  else if e.1 = bytes "nodes" then
    match e.2.asArray with
    | none => (config, false)
    | some nodes => forEach (addNode F) config nodes
  else if e.1 = bytes "queues" then
    match e.2.asArray with
    | none => (config, false)
    | some queues => forEach (addQueue F) config queues
  else setConfig config e

def mergeConfig (config v : Variant N) : Variant N × Bool :=
  match v.asObject with
  | none => (config, false)
  | some m => forEach (mergeMember F) config m

end

/-! ### `Validate` -/

/-- How `Validate` ends: it accepts the configuration, it tells what is wrong with it, or an assertion fails. -/
inductive Verdict
  | accepted
  | refused (message : String)
  | failed
  deriving DecidableEq

def validateNodes (nodeset : List Key) : List (Variant N) → Verdict
  | [] => .accepted
  | node :: nodes =>
    if node.asObject.isNone then .failed
    else
      match node.member (bytes "name"), node.member (bytes "type") with
      | string name, string _ =>
        if name ∈ nodeset then .refused "Duplicate node" else validateNodes (name :: nodeset) nodes
      | string _, _ => .refused "Nodes must have a type"
      | _, _ => .refused "Nodes must have a name"

def validateQueues (readports writeports : List (Key × Key)) : List (Variant N) → Verdict
  | [] => .accepted
  | queue :: queues =>
    if queue.asObject.isNone then .failed
    else
      match queue.member (bytes "size"), queue.member (bytes "threshold") with
      | null, _ => .refused "Queues must have a size"
      | _, null => .refused "Queues must have a threshold"
      | _, _ =>
        match queue.member (bytes "readernode"), queue.member (bytes "readerport") with
        | string readernode, string readerport =>
          if (readernode, readerport) ∈ readports then .refused "Two queues connected to the same reader port."
          else
            match queue.member (bytes "writernode"), queue.member (bytes "writerport") with
            | string writernode, string writerport =>
              if (writernode, writerport) ∈ writeports then .refused "Two queues connected to the same writer port."
              else validateQueues ((readernode, readerport) :: readports) ((writernode, writerport) :: writeports) queues
            | string _, _ => .refused "Queues must have a writerport"
            | _, _ => .refused "Queues must have a writernode"
        | string _, _ => .refused "Queues must have a readerport"
        | _, _ => .refused "Queues must have a readernode"

def validate (conf : Variant N) : Verdict :=
  match conf.asObject, conf.member (bytes "name") with
  | none, _ => .failed
  | some _, string _ =>
    match (conf.member (bytes "nodes")).asArray with
    | none => .failed
    | some nodes =>
      match validateNodes [] nodes with
      | .accepted =>
        match (conf.member (bytes "queues")).asArray with
        | none => .failed
        | some queues => validateQueues [] [] queues
      | verdict => verdict
  | some _, _ => .refused "Kernels must have a name."

/-! ### Nodes and queues -/

/-- The text of a member that is a string. -/
def text (k : Key) (v : Variant N) : Key :=
  match v.member k with
  | string s => s
  | _ => []

def HasText (k : Key) (v : Variant N) : Prop := v.member k = string (text k v)

def name (v : Variant N) : Key := text (bytes "name") v

def reader (v : Variant N) : Key × Key := (text (bytes "readernode") v, text (bytes "readerport") v)

def writer (v : Variant N) : Key × Key := (text (bytes "writernode") v, text (bytes "writerport") v)

structure IsNode (v : Variant N) : Prop where
  name : HasText (bytes "name") v
  type : HasText (bytes "type") v

structure IsQueue (v : Variant N) : Prop where
  size : v.member (bytes "size") ≠ null
  threshold : v.member (bytes "threshold") ≠ null
  readernode : HasText (bytes "readernode") v
  readerport : HasText (bytes "readerport") v
  writernode : HasText (bytes "writernode") v
  writerport : HasText (bytes "writerport") v

section

variable {k k' : Key} {v entry e : Variant N} {entries : List (Variant N)}

private theorem HasText.member_eq (h : HasText k v) : v.member k = string (text k v) := h

private theorem HasText.ne_null (h : HasText k v) : v.member k ≠ null := by
  rw [h.member_eq]
  simp

/-! ### Overwriting an entry -/

theorem find_foldl_insert {m : List (Key × Variant N)} (hm : Dictionary.Sorted m) (m' : List (Key × Variant N)) :
    Dictionary.find k (m.foldl (fun m e => Dictionary.insert e.1 e.2.copy m) m') =
      ((Dictionary.find k m).map copy).or (Dictionary.find k m') := by
  induction m generalizing m' with
  | nil => rfl
  | cons e m ih =>
    obtain ⟨j, x⟩ := e
    rw [Dictionary.sorted_cons] at hm
    rw [List.foldl_cons, ih hm.2]
    by_cases hj : j = k
    · subst hj
      rw [Dictionary.find_insert_self, Dictionary.find_cons_self, Dictionary.find_eq_none fun e he => (hm.1 e he).ne']
      rfl
    · rw [Dictionary.find_insert_of_ne (Ne.symm hj), Dictionary.find_cons_of_ne hj]

private theorem member_overwrite (entry : Variant N) (hv : v.Proper) (h : v.member k ≠ null) :
    (overwrite entry v).member k = (v.member k).copy := by
  obtain ⟨m, rfl, hf⟩ := exists_object_of_member_ne_null h
  rw [Proper] at hv
  rw [overwrite, member_object, asObject, Option.getD_some, find_foldl_insert hv.1, hf]
  rfl

private theorem hasText_overwrite (hv : v.Proper) (h : HasText k v) :
    HasText k (overwrite entry v) ∧ text k (overwrite entry v) = text k v := by
  have hm := member_overwrite entry hv h.ne_null
  rw [HasText] at h
  rw [h, copy] at hm
  · have ht : text k (overwrite entry v) = text k v := by
      unfold text at hm ⊢
      rw [hm]
    exact ⟨by rw [HasText, hm, ht], ht⟩
  all_goals simp

private theorem IsNode.overwrite (hv : v.Proper) (h : IsNode v) : IsNode (overwrite entry v) :=
  ⟨(hasText_overwrite hv h.name).1, (hasText_overwrite hv h.type).1⟩

private theorem name_overwrite (hv : v.Proper) (h : IsNode v) : name (overwrite entry v) = name v :=
  (hasText_overwrite hv h.name).2

private theorem IsQueue.overwrite (hv : v.Proper) (h : IsQueue v) : IsQueue (overwrite entry v) where
  size := by
    rw [member_overwrite entry hv h.size]
    exact copy_ne_null h.size
  threshold := by
    rw [member_overwrite entry hv h.threshold]
    exact copy_ne_null h.threshold
  readernode := (hasText_overwrite hv h.readernode).1
  readerport := (hasText_overwrite hv h.readerport).1
  writernode := (hasText_overwrite hv h.writernode).1
  writerport := (hasText_overwrite hv h.writerport).1

private theorem reader_overwrite (hv : v.Proper) (h : IsQueue v) : reader (overwrite entry v) = reader v := by
  rw [reader, (hasText_overwrite hv h.readernode).2, (hasText_overwrite hv h.readerport).2, reader]

private theorem writer_overwrite (hv : v.Proper) (h : IsQueue v) : writer (overwrite entry v) = writer v := by
  rw [writer, (hasText_overwrite hv h.writernode).2, (hasText_overwrite hv h.writerport).2, writer]

/-! ### The list after an entry was added -/

variable {same : Variant N → Variant N → Variant N × Variant N × Option Bool} {r : Variant N → Prop}

/-- The list with `v` put into the first entry with `r`, or at the end. -/
def Added (r : Variant N → Prop) (v : Variant N) (entries entries' : List (Variant N)) : Prop :=
  (∀ e ∈ entries, ¬ r e) ∧ entries' = entries ++ [v] ∨
    ∃ pre e post, entries = pre ++ e :: post ∧ (∀ x ∈ pre, ¬ r x) ∧ r e ∧ entries' = pre ++ overwrite e v :: post

private theorem Added.forall {entries' : List (Variant N)} {p : Variant N → Prop} (h : Added r v entries entries')
    (hentries : ∀ e ∈ entries, p e) (hv : p v) (hover : ∀ e, p (overwrite e v)) : ∀ e ∈ entries', p e := by
  rcases h with ⟨-, rfl⟩ | ⟨pre, e, post, rfl, -, -, rfl⟩
  · rw [List.forall_mem_append, List.forall_mem_singleton]
    exact ⟨hentries, hv⟩
  · rw [List.forall_mem_append, List.forall_mem_cons] at hentries ⊢
    exact ⟨hentries.1, hover e, hentries.2.2⟩

/-- The entries stay apart in `f` if `r` finds any entry with the `f` of `v`, and no other entry than the one that is
overwritten has it. -/
theorem Added.nodup {α : Type} {f : Variant N → α} {entries' : List (Variant N)} (h : Added r v entries entries')
    (hentries : (entries.map f).Nodup) (hover : ∀ e, f (overwrite e v) = f v) (hr : ∀ e ∈ entries, f v = f e → r e)
    (hfit : ∀ e ∈ entries, r e → ∀ e' ∈ entries, f v = f e' → e' = e) : (entries'.map f).Nodup := by
  rcases h with ⟨hno, rfl⟩ | ⟨pre, e, post, rfl, hpre, he, rfl⟩
  · rw [List.map_append, List.map_singleton, List.nodup_append]
    refine ⟨hentries, List.nodup_singleton _, ?_⟩
    intro a ha b hb heq
    obtain ⟨e, he, rfl⟩ := List.mem_map.1 ha
    rw [List.mem_singleton] at hb
    exact hno e he (hr e he (hb.symm.trans heq.symm))
  · rw [List.map_append, List.map_cons, List.nodup_middle, List.nodup_cons] at hentries ⊢
    refine ⟨fun hmem => ?_, hentries.2⟩
    rw [hover, ← List.map_append, List.mem_map] at hmem
    obtain ⟨e', he', heq⟩ := hmem
    have hmem : e' ∈ pre ++ e :: post := by
      rw [List.mem_append, List.mem_cons]
      exact (List.mem_append.1 he').imp_right Or.inr
    have hsame := hfit e (by simp) he e' hmem heq.symm
    subst hsame
    exact hentries.1 (by rw [← List.map_append]; exact List.mem_map_of_mem he')

variable [DecidablePred r]

private theorem addTo_cases (h : ∀ e ∈ entries, same v e = (v, e, some (decide (r e)))) :
    (∀ e ∈ entries, ¬ r e) ∧ addTo same v entries = (v, entries, some false) ∨
      ∃ pre e post, entries = pre ++ e :: post ∧ (∀ x ∈ pre, ¬ r x) ∧ r e ∧
        addTo same v entries = (v, pre ++ overwrite e v :: post, some true) := by
  induction entries with
  | nil => exact .inl ⟨by simp, rfl⟩
  | cons e entries ih =>
    rw [List.forall_mem_cons] at h
    rw [addTo, h.1]
    by_cases hr : r e
    · exact .inr ⟨[], e, entries, rfl, by simp, hr, by simp [hr]⟩
    · simp only [hr, decide_false]
      rcases ih h.2 with ⟨hno, heq⟩ | ⟨pre, e', post, rfl, hpre, he', heq⟩
      · exact .inl ⟨List.forall_mem_cons.2 ⟨hr, hno⟩, by rw [heq]⟩
      · exact .inr ⟨e :: pre, e', post, rfl, List.forall_mem_cons.2 ⟨hr, hpre⟩, he', by rw [heq]; rfl⟩

/-- The entries of the configuration at `list`. -/
def entriesAt (list : Key) (config : Variant N) : List (Variant N) := (config.member list).asArray.getD []

private theorem addEntry_cases {list : Key} {config : Variant N} {m : List (Key × Variant N)} (hv : v.Proper)
    (hconfig : config.asObject = some m) (h : ∀ e ∈ entriesAt list config, same v e = (v, e, some (decide (r e)))) :
    ∃ entries', addEntry list same config v = (object (Dictionary.insert list (array entries') m), true) ∧
      Added r v (entriesAt list config) entries' := by
  have hentries : ((object m).member list).asArray.getD [] = entriesAt list config := by
    rw [entriesAt, member_of_asObject hconfig]
  unfold addEntry
  rw [hconfig]
  dsimp only
  rw [hentries]
  rcases addTo_cases h with ⟨hno, heq⟩ | ⟨pre, e, post, hsplit, hpre, he, heq⟩
  · rw [heq]
    dsimp only
    rw [copy_of_proper v hv]
    exact ⟨_, rfl, .inl ⟨hno, rfl⟩⟩
  · rw [heq]
    exact ⟨_, rfl, .inr ⟨pre, e, post, hsplit, hpre, he, rfl⟩⟩

/-! ### The comparison of entries -/

variable [PartialOrder N] [DecidableLT N] {F : NumberFormat N}

private theorem sameAt_of_hasText (h : HasText k v) (h' : HasText k entry) :
    sameAt F k v entry = (v, entry, some (decide (text k v = text k entry))) := by
  unfold sameAt
  rw [touch_of_member_ne_null h.ne_null, touch_of_member_ne_null h'.ne_null]
  rw [HasText] at h h'
  simp only [h, h', Variant.compare, compareString, Option.map_some]
  congr
  rw [beq_eq_decide, decide_eq_decide]
  exact compareStrings_eq_zero

private theorem sameBoth_of_hasText (h : HasText k v) (h' : HasText k' v) (he : HasText k entry) (he' : HasText k' entry) :
    sameBoth F k k' v entry =
      (v, entry, some (decide ((text k v, text k' v) = (text k entry, text k' entry)))) := by
  unfold sameBoth
  rw [sameAt_of_hasText h he]
  by_cases heq : text k v = text k entry
  · simp [heq, sameAt_of_hasText h' he']
  · simp [heq]

private theorem sameNode_eq (h : IsNode v) (h' : IsNode entry) :
    sameNode F v entry = (v, entry, some (decide (name v = name entry))) :=
  sameAt_of_hasText h.name h'.name

private theorem sameQueue_eq (h : IsQueue v) (h' : IsQueue entry) :
    sameQueue F v entry = (v, entry, some (decide (reader v = reader entry ∨ writer v = writer entry))) := by
  unfold sameQueue
  rw [sameBoth_of_hasText h.readernode h.readerport h'.readernode h'.readerport]
  change (match (v, entry, some (decide (reader v = reader entry))) with
    | (v, entry, some false) => sameBoth F (bytes "writernode") (bytes "writerport") v entry
    | r => r) = _
  by_cases hr : reader v = reader entry
  · simp [hr]
  · simp only [hr, decide_false, false_or]
    exact sameBoth_of_hasText h.writernode h.writerport h'.writernode h'.writerport

end

/-! ### Well-formed configurations -/

/-- No queue of the list but the one with the reader of `v` has the writer of `v`, when there is one with its reader. -/
def Fits (queues : List (Variant N)) (v : Variant N) : Prop :=
  ∀ e ∈ queues, reader v = reader e → ∀ e' ∈ queues, writer v = writer e' → e' = e

structure Merged (config : Variant N) : Prop where
  isObject : config.asObject.isSome
  nodes : (config.member (bytes "nodes")).asArray.isSome
  queues : (config.member (bytes "queues")).asArray.isSome
  isNode : ∀ v ∈ entriesAt (bytes "nodes") config, IsNode v
  isQueue : ∀ v ∈ entriesAt (bytes "queues") config, IsQueue v
  names : ((entriesAt (bytes "nodes") config).map name).Nodup
  readers : ((entriesAt (bytes "queues") config).map reader).Nodup
  writers : ((entriesAt (bytes "queues") config).map writer).Nodup

section

variable {config v : Variant N} {k : Key}

private theorem merged_null : Merged (null : Variant N) := by
  constructor <;> simp [asObject, asArray, entriesAt]

private theorem entriesAt_insert_self {l : List (Variant N)} {m : List (Key × Variant N)} :
    entriesAt k (object (Dictionary.insert k (array l) m)) = l := by
  rw [entriesAt, member_insert_self]
  rfl

private theorem entriesAt_of_member_eq {config' : Variant N} (h : config'.member k = config.member k) :
    entriesAt k config' = entriesAt k config := by
  rw [entriesAt, h, entriesAt]

private theorem Merged.setConfig (h : Merged config) {e : Key × Variant N} (hn : e.1 ≠ bytes "nodes")
    (hq : e.1 ≠ bytes "queues") :
    Merged (setConfig config e).1 := by
  obtain ⟨m, hm⟩ := Option.isSome_iff_exists.1 h.isObject
  have hmember {k : Key} (hk : e.1 ≠ k) : (object (Dictionary.insert e.1 e.2 m)).member k = config.member k :=
    (member_insert_of_ne hk.symm).trans (member_of_asObject hm k).symm
  unfold VariantCPNLoader.setConfig
  rw [hm]
  have hnodes := hmember hn
  have hqueues := hmember hq
  constructor
  · rfl
  · rw [hnodes]; exact h.nodes
  · rw [hqueues]; exact h.queues
  · rw [entriesAt_of_member_eq hnodes]; exact h.isNode
  · rw [entriesAt_of_member_eq hqueues]; exact h.isQueue
  · rw [entriesAt_of_member_eq hnodes]; exact h.names
  · rw [entriesAt_of_member_eq hqueues]; exact h.readers
  · rw [entriesAt_of_member_eq hqueues]; exact h.writers

private theorem Merged.setContext (h : Merged config) (e : Key × Variant N) : Merged (setContext config e).1 := by
  unfold VariantCPNLoader.setContext
  split
  · exact h
  · have hn : bytes "context" ≠ bytes "nodes" := by decide
    have hq : bytes "context" ≠ bytes "queues" := by decide
    exact h.setConfig hn hq

variable [PartialOrder N] [DecidableLT N] {F : NumberFormat N}

private theorem Merged.addNode (h : Merged config) (hv : v.Proper) (hnode : IsNode v) : Merged (addNode F config v).1 := by
  obtain ⟨m, hm⟩ := Option.isSome_iff_exists.1 h.isObject
  obtain ⟨nodes, heq, hadd⟩ := addEntry_cases hv hm fun e he => sameNode_eq (F := F) hnode (h.isNode e he)
  have hqueues : (object (Dictionary.insert (bytes "nodes") (array nodes) m)).member (bytes "queues") =
      config.member (bytes "queues") := (member_insert_of_ne (by decide)).trans (member_of_asObject hm _).symm
  rw [VariantCPNLoader.addNode, heq]
  constructor
  · rfl
  · rw [member_insert_self]; rfl
  · rw [hqueues]; exact h.queues
  · rw [entriesAt_insert_self]
    exact hadd.forall h.isNode hnode fun e => hnode.overwrite hv
  · rw [entriesAt_of_member_eq hqueues]; exact h.isQueue
  · rw [entriesAt_insert_self]
    refine hadd.nodup h.names (fun e => name_overwrite hv hnode) (fun e _ heq => heq) fun e he hr e' he' heq => ?_
    exact List.inj_on_of_nodup_map h.names he' he (heq.symm.trans hr)
  · rw [entriesAt_of_member_eq hqueues]; exact h.readers
  · rw [entriesAt_of_member_eq hqueues]; exact h.writers

private theorem Merged.addQueue (h : Merged config) (hv : v.Proper) (hqueue : IsQueue v)
    (hfits : Fits (entriesAt (bytes "queues") config) v) : Merged (addQueue F config v).1 := by
  obtain ⟨m, hm⟩ := Option.isSome_iff_exists.1 h.isObject
  obtain ⟨queues, heq, hadd⟩ := addEntry_cases hv hm fun e he => sameQueue_eq (F := F) hqueue (h.isQueue e he)
  have hnodes : (object (Dictionary.insert (bytes "queues") (array queues) m)).member (bytes "nodes") =
      config.member (bytes "nodes") := (member_insert_of_ne (by decide)).trans (member_of_asObject hm _).symm
  rw [VariantCPNLoader.addQueue, heq]
  constructor
  · rfl
  · rw [hnodes]; exact h.nodes
  · rw [member_insert_self]; rfl
  · rw [entriesAt_of_member_eq hnodes]; exact h.isNode
  · rw [entriesAt_insert_self]
    exact hadd.forall h.isQueue hqueue fun e => hqueue.overwrite hv
  · rw [entriesAt_of_member_eq hnodes]; exact h.names
  · rw [entriesAt_insert_self]
    refine hadd.nodup h.readers (fun e => reader_overwrite hv hqueue) (fun e _ => .inl) fun e he hr e' he' heq => ?_
    rcases hr with hr | hw
    · exact List.inj_on_of_nodup_map h.readers he' he (heq.symm.trans hr)
    · exact (hfits e' he' heq e he hw).symm
  · rw [entriesAt_insert_self]
    refine hadd.nodup h.writers (fun e => writer_overwrite hv hqueue) (fun e _ => .inr) fun e he hr e' he' heq => ?_
    rcases hr with hr | hw
    · exact hfits e he hr e' he' heq
    · exact List.inj_on_of_nodup_map h.writers he' he (heq.symm.trans hw)

end

/-! ### Validation of a merged configuration -/

section

variable {v config : Variant N} {k : Key}

private theorem HasText.asObject (h : HasText k v) : v.asObject.isNone = false := by
  obtain ⟨m, rfl, -⟩ := exists_object_of_member_ne_null h.ne_null
  rfl

private theorem validateNodes_eq_accepted {nodes : List (Variant N)} {nodeset : List Key} (hnodes : ∀ v ∈ nodes, IsNode v)
    (hnames : (nodes.map name).Nodup) (hnew : ∀ v ∈ nodes, name v ∉ nodeset) :
    validateNodes nodeset nodes = .accepted := by
  induction nodes generalizing nodeset with
  | nil => rfl
  | cons v nodes ih =>
    rw [List.forall_mem_cons] at hnodes hnew
    rw [List.map_cons, List.nodup_cons] at hnames
    have hname := hnodes.1.name
    rw [validateNodes, hname.asObject, hname.member_eq, hnodes.1.type.member_eq]
    simp only [Bool.false_eq_true, if_false]
    change (if name v ∈ nodeset then _ else validateNodes (name v :: nodeset) nodes) = _
    rw [if_neg hnew.1]
    refine ih hnodes.2 hnames.2 fun e he => ?_
    rw [List.mem_cons, not_or]
    exact ⟨fun heq => hnames.1 (List.mem_map.2 ⟨e, he, heq⟩), hnew.2 e he⟩

private theorem validateQueues_cons {queues : List (Variant N)} {readports writeports : List (Key × Key)} (h : IsQueue v) :
    validateQueues readports writeports (v :: queues) =
      if reader v ∈ readports then .refused "Two queues connected to the same reader port."
      else if writer v ∈ writeports then .refused "Two queues connected to the same writer port."
      else validateQueues (reader v :: readports) (writer v :: writeports) queues := by
  have hnull (x y : Variant N) (a b c : Verdict) : x ≠ null → y ≠ null →
      (match x, y with
        | null, _ => a
        | _, null => b
        | _, _ => c) = c := by
    intro hx hy
    cases x <;> cases y <;> first | exact absurd rfl hx | exact absurd rfl hy | rfl
  rw [validateQueues, h.readernode.asObject, hnull _ _ _ _ _ h.size h.threshold, h.readernode.member_eq,
    h.readerport.member_eq,
    h.writernode.member_eq, h.writerport.member_eq]
  rfl

private theorem validateQueues_eq_accepted {queues : List (Variant N)} {readports writeports : List (Key × Key)}
    (hqueues : ∀ v ∈ queues, IsQueue v) (hreaders : (queues.map reader).Nodup) (hwriters : (queues.map writer).Nodup)
    (hr : ∀ v ∈ queues, reader v ∉ readports) (hw : ∀ v ∈ queues, writer v ∉ writeports) :
    validateQueues readports writeports queues = .accepted := by
  induction queues generalizing readports writeports with
  | nil => rfl
  | cons v queues ih =>
    rw [List.forall_mem_cons] at hqueues hr hw
    rw [List.map_cons, List.nodup_cons] at hreaders hwriters
    rw [validateQueues_cons hqueues.1, if_neg hr.1, if_neg hw.1]
    refine ih hqueues.2 hreaders.2 hwriters.2 (fun e he => ?_) fun e he => ?_
    · rw [List.mem_cons, not_or]
      exact ⟨fun heq => hreaders.1 (List.mem_map.2 ⟨e, he, heq⟩), hr.2 e he⟩
    · rw [List.mem_cons, not_or]
      exact ⟨fun heq => hwriters.1 (List.mem_map.2 ⟨e, he, heq⟩), hw.2 e he⟩

/-- A merged configuration with a name is accepted. -/
theorem Merged.validate (h : Merged config) (hname : HasText (bytes "name") config) : validate config = .accepted := by
  obtain ⟨m, hm⟩ := Option.isSome_iff_exists.1 h.isObject
  obtain ⟨nodes, hnodes⟩ := Option.isSome_iff_exists.1 h.nodes
  obtain ⟨queues, hqueues⟩ := Option.isSome_iff_exists.1 h.queues
  have hentries : entriesAt (bytes "nodes") config = nodes := by rw [entriesAt, hnodes, Option.getD_some]
  have hentries' : entriesAt (bytes "queues") config = queues := by rw [entriesAt, hqueues, Option.getD_some]
  have haccept : validateNodes [] nodes = .accepted :=
    validateNodes_eq_accepted (hentries ▸ h.isNode) (hentries ▸ h.names) fun _ _ => List.not_mem_nil
  have haccept' : validateQueues [] [] queues = .accepted :=
    validateQueues_eq_accepted (hentries' ▸ h.isQueue) (hentries' ▸ h.readers) (hentries' ▸ h.writers)
      (fun _ _ => List.not_mem_nil) fun _ _ => List.not_mem_nil
  rw [VariantCPNLoader.validate, hm, hname.member_eq]
  dsimp only
  rw [hnodes]
  dsimp only
  rw [haccept]
  dsimp only
  rw [hqueues]
  exact haccept'

end

/-! ### Runs of calls -/

inductive Call (N : Type)
  | addNode (v : Variant N)
  | addQueue (v : Variant N)
  | mergeConfig (v : Variant N)

/-- The nodes of the call have a name and a type, its queues a size, a threshold and the names of their ends. -/
def Call.WellFormed : Call N → Prop
  | .addNode v => v.Proper ∧ IsNode v
  | .addQueue v => v.Proper ∧ IsQueue v
  | .mergeConfig v =>
    v.Proper ∧ (∀ e ∈ entriesAt (bytes "nodes") v, IsNode e) ∧ ∀ e ∈ entriesAt (bytes "queues") v, IsQueue e

/-- `ok` holds before each step that the loop takes. -/
def Along {α : Type} (f : Variant N → α → Variant N × Bool) (ok : Variant N → α → Prop) (config : Variant N) :
    List α → Prop
  | [] => True
  | a :: l => ok config a ∧ ((f config a).2 = true → Along f ok (f config a).1 l)

section

variable {v config : Variant N}

private theorem forEach_invariant {α : Type} {f : Variant N → α → Variant N × Bool} {ok : Variant N → α → Prop}
    {I : Variant N → Prop} {l : List α} (h : ∀ a ∈ l, ∀ config, I config → ok config a → I (f config a).1)
    (hconfig : I config) (hok : Along f ok config l) : I (forEach f config l).1 := by
  induction l generalizing config with
  | nil => exact hconfig
  | cons a l ih =>
    rw [List.forall_mem_cons] at h
    obtain ⟨hoka, hokl⟩ := hok
    have hstep := h.1 config hconfig hoka
    rw [forEach]
    split
    · next heq => rw [heq] at hstep hokl; exact ih h.2 hstep (hokl rfl)
    · exact hstep

private theorem along_true {α : Type} {f : Variant N → α → Variant N × Bool} {l : List α} :
    Along f (fun _ _ => True) config l := by
  induction l generalizing config with
  | nil => trivial
  | cons a l ih => exact ⟨trivial, fun _ => ih⟩

private theorem proper_of_mem_asArray {l : List (Variant N)} {e : Variant N} (hv : v.Proper) (hl : v.asArray.getD [] = l)
    (he : e ∈ l) : e.Proper := by
  subst hl
  cases v with
  | array l => exact properElements_iff.1 (by rwa [Proper] at hv) e he
  | null | bool | number | string | object => cases he

end

section

variable [PartialOrder N] [DecidableLT N] (F : NumberFormat N)

def call (config : Variant N) : Call N → Variant N
  | .addNode v => (addNode F config v).1
  | .addQueue v => (addQueue F config v).1
  | .mergeConfig v => (mergeConfig F config v).1

def run (config : Variant N) (calls : List (Call N)) : Variant N := calls.foldl (call F) config

def QueueFits (config v : Variant N) : Prop := Fits (entriesAt (bytes "queues") config) v

def MemberFits (config : Variant N) (e : Key × Variant N) : Prop :=
  e.1 = bytes "queues" → Along (addQueue F) QueueFits config (e.2.asArray.getD [])

/-- Each queue that the call adds fits into the list of queues as it is then. -/
def CallFits (config : Variant N) : Call N → Prop
  | .addNode _ => True
  | .addQueue v => QueueFits config v
  | .mergeConfig v => Along (mergeMember F) (MemberFits F) config (v.asObject.getD [])

def RunFits (config : Variant N) : List (Call N) → Prop
  | [] => True
  | c :: calls => CallFits F config c ∧ RunFits (call F config c) calls

variable {F} {config v : Variant N}

private theorem Merged.mergeMember {e : Key × Variant N} (h : Merged config) (he : e.2.Proper)
    (hnodes : e.1 = bytes "nodes" → ∀ x ∈ e.2.asArray.getD [], IsNode x)
    (hqueues : e.1 = bytes "queues" → ∀ x ∈ e.2.asArray.getD [], IsQueue x) (hfits : MemberFits F config e) :
    Merged (mergeMember F config e).1 := by
  unfold VariantCPNLoader.mergeMember
  split_ifs with hc hn hq
  · split
    · exact h
    · exact forEach_invariant (fun e _ config hconfig _ => hconfig.setContext e) h along_true
  · split
    · exact h
    · next nodes heq =>
      have hl : e.2.asArray.getD [] = nodes := by rw [heq, Option.getD_some]
      refine forEach_invariant (fun x hx config hconfig _ => ?_) h along_true
      exact hconfig.addNode (proper_of_mem_asArray he hl hx) (hnodes hn x (hl ▸ hx))
  · split
    · exact h
    · next queues heq =>
      have hl : e.2.asArray.getD [] = queues := by rw [heq, Option.getD_some]
      refine forEach_invariant (fun x hx config hconfig hx' => ?_) h (hl ▸ hfits hq)
      exact hconfig.addQueue (proper_of_mem_asArray he hl hx) (hqueues hq x (hl ▸ hx)) hx'
  · exact h.setConfig hn hq

private theorem Merged.mergeConfig (h : Merged config) (hv : v.Proper) (hnodes : ∀ e ∈ entriesAt (bytes "nodes") v, IsNode e)
    (hqueues : ∀ e ∈ entriesAt (bytes "queues") v, IsQueue e)
    (hfits : Along (VariantCPNLoader.mergeMember F) (MemberFits F) config (v.asObject.getD [])) :
    Merged (mergeConfig F config v).1 := by
  unfold VariantCPNLoader.mergeConfig
  split
  · exact h
  · next m hm =>
    rw [hm, Option.getD_some] at hfits
    refine forEach_invariant (fun e he config hconfig hfit => ?_) h hfits
    have hmember := member_of_asObject hm
    cases v with
    | null => cases hm; cases he
    | object m' =>
      cases hm
      rw [Proper] at hv
      have hfind : (object m).member e.1 = e.2 := by
        rw [member_object, Dictionary.find_of_mem hv.1 he, Option.getD_some]
      refine hconfig.mergeMember (properMembers_iff.1 hv.2 e he) (fun hk => ?_) (fun hk => ?_) hfit
      · rw [← hfind, hk]
        exact hnodes
      · rw [← hfind, hk]
        exact hqueues
    | bool | number | string | array => cases hm

private theorem Merged.call {c : Call N} (h : Merged config) (hc : c.WellFormed) (hfits : CallFits F config c) :
    Merged (call F config c) := by
  cases c with
  | addNode v => exact h.addNode hc.1 hc.2
  | addQueue v => exact h.addQueue hc.1 hc.2 hfits
  | mergeConfig v => exact h.mergeConfig hc.1 hc.2.1 hc.2.2 hfits

private theorem Merged.run {calls : List (Call N)} (h : Merged config) (hcalls : ∀ c ∈ calls, c.WellFormed)
    (hfits : RunFits F config calls) : Merged (run F config calls) := by
  induction calls generalizing config with
  | nil => exact h
  | cons c calls ih =>
    rw [List.forall_mem_cons] at hcalls
    exact ih (h.call hcalls.1 hfits.1) hcalls.2 hfits.2

end

/-- `KernelName`. -/
def kernelName (config : Variant N) (name : Key) : Variant N × Bool := setConfig config (bytes "name", string name)

/-- Calls whose queues fit leave a configuration in which no name, no reader and no writer is there twice, and which is
accepted once it has a name. -/
theorem run_wellFormed [PartialOrder N] [DecidableLT N] (F : NumberFormat N) (calls : List (Call N))
    (hcalls : ∀ c ∈ calls, c.WellFormed) (hfits : RunFits F null calls) :
    ((entriesAt (bytes "nodes") (run F null calls)).map name).Nodup ∧
      ((entriesAt (bytes "queues") (run F null calls)).map reader).Nodup ∧
      ((entriesAt (bytes "queues") (run F null calls)).map writer).Nodup ∧
      (HasText (bytes "name") (run F null calls) → validate (run F null calls) = .accepted) ∧
      ∀ name, validate (kernelName (run F null calls) name).1 = .accepted := by
  have h := merged_null.run hcalls hfits
  refine ⟨h.names, h.readers, h.writers, h.validate, fun name => ?_⟩
  have hn : bytes "name" ≠ bytes "nodes" := by decide
  have hq : bytes "name" ≠ bytes "queues" := by decide
  refine (h.setConfig (e := (bytes "name", string name)) hn hq).validate ?_
  obtain ⟨m, hm⟩ := Option.isSome_iff_exists.1 h.isObject
  unfold setConfig HasText text
  rw [hm]
  dsimp only
  rw [member_insert_self]

/-- A queue with a reader and a writer on ports of two nodes. -/
def queueConf (readernode writernode : Key) : Variant Int :=
  object [(bytes "readernode", string readernode), (bytes "readerport", string (bytes "in")), (bytes "size", number 20),
    (bytes "threshold", number 10), (bytes "writernode", string writernode), (bytes "writerport", string (bytes "out"))]

private theorem queueConf_wellFormed (readernode writernode : Key) :
    (Call.addQueue (queueConf readernode writernode)).WellFormed := by
  have hsize : (queueConf readernode writernode).member (bytes "size") = number 20 := rfl
  have hthreshold : (queueConf readernode writernode).member (bytes "threshold") = number 10 := rfl
  have hsorted : [bytes "readernode", bytes "readerport", bytes "size", bytes "threshold", bytes "writernode",
      bytes "writerport"].Pairwise (· < ·) := by decide +kernel
  refine ⟨?_, by rw [hsize]; simp, by rw [hthreshold]; simp, rfl, rfl, rfl, rfl⟩
  rw [queueConf, Proper]
  exact ⟨hsorted, by simp [ProperMembers, Proper]⟩

def nodeConf (name type : Key) : Variant Int := object [(bytes "name", string name), (bytes "type", string type)]

private theorem nodeConf_wellFormed (name type : Key) : (Call.addNode (nodeConf name type)).WellFormed := by
  have hsorted : [bytes "name", bytes "type"].Pairwise (· < ·) := by decide +kernel
  refine ⟨?_, rfl, rfl⟩
  rw [nodeConf, Proper]
  exact ⟨hsorted, by simp [ProperMembers, Proper]⟩

private theorem fits_of_notMem {queues : List (Variant N)} {v : Variant N} (h : writer v ∉ queues.map writer) :
    Fits queues v :=
  fun _ _ _ _ he' hw => absurd (hw ▸ List.mem_map_of_mem he') h

/-- Two nodes and two queues; then a node is given another type, and the reader of the first queue another writer. -/
def overwriting : List (Call Int) :=
  [.addNode (nodeConf (bytes "a") (bytes "x")), .addNode (nodeConf (bytes "b") (bytes "x")),
    .addQueue (queueConf (bytes "b") (bytes "a")), .addQueue (queueConf (bytes "d") (bytes "c")),
    .addNode (nodeConf (bytes "a") (bytes "y")), .addQueue (queueConf (bytes "b") (bytes "e"))]

theorem run_wellFormed_queue :
    ((entriesAt (bytes "nodes") (run decimalFormat null overwriting)).map name).Nodup ∧
      ((entriesAt (bytes "queues") (run decimalFormat null overwriting)).map reader).Nodup ∧
      ((entriesAt (bytes "queues") (run decimalFormat null overwriting)).map writer).Nodup ∧
      (entriesAt (bytes "queues") (run decimalFormat null overwriting)).map writer =
        [(bytes "e", bytes "out"), (bytes "c", bytes "out")] ∧
      validate (kernelName (run decimalFormat null overwriting) (bytes "k")).1 = .accepted := by
  have hcalls : ∀ c ∈ overwriting, c.WellFormed := by
    simp only [overwriting, List.forall_mem_cons]
    exact ⟨nodeConf_wellFormed _ _, nodeConf_wellFormed _ _, queueConf_wellFormed _ _, queueConf_wellFormed _ _,
      nodeConf_wellFormed _ _, queueConf_wellFormed _ _, fun _ hc => absurd hc List.not_mem_nil⟩
  have hfits : RunFits decimalFormat null overwriting :=
    ⟨trivial, trivial, fits_of_notMem (by decide +kernel), fits_of_notMem (by decide +kernel), trivial,
      fits_of_notMem (by decide +kernel), trivial⟩
  obtain ⟨hnames, hreaders, hwriters, -, haccepted⟩ := run_wellFormed decimalFormat overwriting hcalls hfits
  exact ⟨hnames, hreaders, hwriters, by decide +kernel, haccepted (bytes "k")⟩

/-- A queue with the reader of the first queue and the writer of the second one takes the place of the first one only. -/
theorem not_forall_run_wellFormed :
    ¬ ∀ calls : List (Call Int), (∀ c ∈ calls, c.WellFormed) →
      ((entriesAt (bytes "queues") (run decimalFormat null calls)).map writer).Nodup := by
  intro h
  have hnodup := h [.addQueue (queueConf (bytes "b") (bytes "a")), .addQueue (queueConf (bytes "d") (bytes "c")),
    .addQueue (queueConf (bytes "b") (bytes "c"))] (by
      simp only [List.forall_mem_cons]
      exact ⟨queueConf_wellFormed _ _, queueConf_wellFormed _ _, queueConf_wellFormed _ _, fun _ hc =>
        absurd hc List.not_mem_nil⟩)
  revert hnodup
  decide +kernel

end ProcessNetwork.VariantCPNLoader
