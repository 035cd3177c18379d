import ProcessNetwork.ServerReplies

/-!
# The notices of the server

What a client can wait for is something that the server knows: that a kernel is live, that a node has started or ended, that
no node is live.  When it comes to be, the server sends a notice of it to everyone, unless the signal is for a key that is
not the key of a node (`dispatch_due`); and when it is already so, the reply to the query says it (`query_reply`).
-/

namespace ProcessNetwork.RemoteContext

open Exceptions
open Registry (Key Stop Side)

/-- What `WaitForKernelStart`, `WaitForNodeStart`, `WaitForNodeEnd` and `WaitForAllNodeEnd` wait for. -/
inductive Awaited
  | kernelStart (name : String)
  | nodeStart (name : String)
  | nodeEnd (name : String)
  | allNodeEnd

namespace Awaited

/-- The request that the wait begins with. -/
def query : Awaited → Request
  | kernelStart name => .getKernelInfo (.inl name)
  | nodeStart name | nodeEnd name => .getNodeInfo (.inl name)
  | allNodeEnd => .getNumNodeLive

/-- The wait returns on the reply. -/
def answered (reply : Reply) : Awaited → Bool
  | kernelStart _ => reply.success && reply.kernelinfo.any fun info => info.live = some true
  | nodeStart _ => reply.success && reply.nodeinfo.any fun info => info.started = some true
  | nodeEnd _ => reply.success && reply.nodeinfo.any fun info => info.dead = some true
  | allNodeEnd => reply.numlivenodes.getD 0 = 0

/-- The wait returns on the notice. -/
def told (msg : Broadcast) : Awaited → Bool
  | kernelStart name => msg.kernelinfo.any fun info => info.name.getD "null" = name ∧ info.live = some true
  | nodeStart name => msg.nodeinfo.any fun info => info.started = some true ∧ info.name.getD "null" = name
  | nodeEnd name => msg.nodeinfo.any fun info => info.dead = some true ∧ info.name.getD "null" = name
  | allNodeEnd => msg.numlivenodes = 0

end Awaited

/-- What the server says of an object with a kind. -/
structure Mark where
  kind : Kind
  name : Option String
  live : Option Bool
  started : Option Bool
  dead : Option Bool

def Info.mark (info : Info) : Option Mark := info.type.map fun kind =>
  { kind := kind, name := info.name, live := info.live, started := info.started, dead := info.dead }

namespace Server

variable {s t : Server} {k key : Key} {info : Info} {name sender : String} {e : Awaited}

def markAt (s : Server) (k : Key) : Option Mark := (s.datamap k).bind fun d => d.bind Info.mark

/-- It is so, as far as the server knows. -/
def Due (s : Server) : Awaited → Prop
  | .kernelStart name =>
    ∃ k m, s.kernelmap name = some k ∧ s.markAt k = some m ∧ m.kind = .kernelinfo ∧ m.live = some true
  | .nodeStart name => ∃ k m, s.nodemap name = some k ∧ s.markAt k = some m ∧ m.started = some true
  | .nodeEnd name => ∃ k m, s.nodemap name = some k ∧ s.markAt k = some m ∧ m.dead = some true
  | .allNodeEnd => s.numlivenodes = 0

/-- There is something else under the key of the kernel, and its query fails. -/
def Dud (s : Server) : Awaited → Prop
  | .kernelStart name =>
    ∃ k, s.kernelmap name = some k ∧ k ≤ s.keycount ∧ ∀ m, s.markAt k = some m → m.kind ≠ .kernelinfo
  | _ => False

/-- An object that is found by a name has the name. -/
structure Named (s : Server) : Prop where
  kernels : ∀ name k, s.kernelmap name = some k → k ≤ s.keycount ∧ ∀ m, s.markAt k = some m → m.name = some name
  nodes : ∀ name k, s.nodemap name = some k → k ≤ s.keycount ∧ ∀ m, s.markAt k = some m → m.name = some name

theorem Dud.not_due (h : s.Dud e) : ¬ s.Due e := by
  cases e with
  | kernelStart name =>
    obtain ⟨k, hk, -, hkind⟩ := h
    rintro ⟨k', m, hk', hm, hm', -⟩
    rw [hk] at hk'
    cases hk'
    exact hkind m hm hm'
  | nodeStart name | nodeEnd name | allNodeEnd => exact h.elim

/-! ### What every message keeps -/

/-- The objects keep their kinds and their names, and the names their keys; what is new has new keys and is neither live
nor started nor dead. -/
structure Grows (s t : Server) : Prop where
  keycount : s.keycount ≤ t.keycount
  kernelmap : ∀ name k, s.kernelmap name = some k → t.kernelmap name = some k
  nodemap : ∀ name k, s.nodemap name = some k → t.nodemap name = some k
  newKernel : ∀ name k, s.kernelmap name = none → t.kernelmap name = some k →
    k ≤ t.keycount ∧ ∀ m, t.markAt k = some m → m.name = some name ∧ m.live = some false
  newNode : ∀ name k, s.nodemap name = none → t.nodemap name = some k →
    k ≤ t.keycount ∧ ∀ m, t.markAt k = some m → m.name = some name ∧ m.started = some false ∧ m.dead = some false
  marks : ∀ k, k ≤ s.keycount →
    (t.markAt k).map (fun m => (m.kind, m.name)) = (s.markAt k).map fun m => (m.kind, m.name)

theorem Grows.named (h : Grows s t) (hs : Named s) : Named t := by
  have hold {k : Key} {name : String} (hk : k ≤ s.keycount) (hname : ∀ m, s.markAt k = some m → m.name = some name)
      (m : Mark) (hm : t.markAt k = some m) : m.name = some name := by
    have hmarks := h.marks k hk
    rw [hm, Option.map_some] at hmarks
    obtain ⟨m', hm', heq⟩ := Option.map_eq_some_iff.1 hmarks.symm
    rw [← (Prod.mk.inj heq).2]
    exact hname m' hm'
  refine ⟨fun name k hk => ?_, fun name k hk => ?_⟩
  · cases hname : s.kernelmap name with
    | none =>
      obtain ⟨hle, hm⟩ := h.newKernel name k hname hk
      exact ⟨hle, fun m hmark => (hm m hmark).1⟩
    | some k' =>
      rw [h.kernelmap name k' hname] at hk
      cases hk
      obtain ⟨hle, hm⟩ := hs.kernels name k hname
      exact ⟨hle.trans h.keycount, hold hle hm⟩
  · cases hname : s.nodemap name with
    | none =>
      obtain ⟨hle, hm⟩ := h.newNode name k hname hk
      exact ⟨hle, fun m hmark => (hm m hmark).1⟩
    | some k' =>
      rw [h.nodemap name k' hname] at hk
      cases hk
      obtain ⟨hle, hm⟩ := hs.nodes name k hname
      exact ⟨hle.trans h.keycount, hold hle hm⟩

theorem Grows.dud (h : Grows s t) (hs : s.Dud e) : t.Dud e := by
  cases e with
  | kernelStart name =>
    obtain ⟨k, hk, hle, hkind⟩ := hs
    refine ⟨k, h.kernelmap name k hk, hle.trans h.keycount, fun m hm => ?_⟩
    have hmarks := h.marks k hle
    rw [hm, Option.map_some] at hmarks
    obtain ⟨m', hm', heq⟩ := Option.map_eq_some_iff.1 hmarks.symm
    rw [← (Prod.mk.inj heq).1]
    exact hkind m' hm'
  | nodeStart name | nodeEnd name | allNodeEnd => exact hs.elim

/-- What is sent does not matter. -/
theorem Grows.sent (h : Grows s t) (more : List (Recipient × ServerMessage)) : Grows s { t with outbox := more } :=
  ⟨h.keycount, h.kernelmap, h.nodemap, h.newKernel, h.newNode, h.marks⟩

/-- Nothing that was there is marked otherwise. -/
structure Frame (s t : Server) : Prop extends Grows s t where
  same : ∀ k, k ≤ s.keycount → t.markAt k = s.markAt k
  numlivenodes : t.numlivenodes = s.numlivenodes

private theorem Frame.due (h : Frame s t) (hs : Named s) (ht : t.Due e) : s.Due e := by
  cases e with
  | kernelStart name =>
    obtain ⟨k, m, hk, hm, hkind, hlive⟩ := ht
    cases hname : s.kernelmap name with
    | none =>
      have hnew := ((h.newKernel name k hname hk).2 m hm).2
      rw [hlive] at hnew
      cases hnew
    | some k' =>
      rw [h.kernelmap name k' hname] at hk
      cases hk
      rw [h.same k (hs.kernels name k hname).1] at hm
      exact ⟨k, m, hname, hm, hkind, hlive⟩
  | nodeStart name =>
    obtain ⟨k, m, hk, hm, hstarted⟩ := ht
    cases hname : s.nodemap name with
    | none =>
      have hnew := ((h.newNode name k hname hk).2 m hm).2.1
      rw [hstarted] at hnew
      cases hnew
    | some k' =>
      rw [h.nodemap name k' hname] at hk
      cases hk
      rw [h.same k (hs.nodes name k hname).1] at hm
      exact ⟨k, m, hname, hm, hstarted⟩
  | nodeEnd name =>
    obtain ⟨k, m, hk, hm, hdead⟩ := ht
    cases hname : s.nodemap name with
    | none =>
      have hnew := ((h.newNode name k hname hk).2 m hm).2.2
      rw [hdead] at hnew
      cases hnew
    | some k' =>
      rw [h.nodemap name k' hname] at hk
      cases hk
      rw [h.same k (hs.nodes name k hname).1] at hm
      exact ⟨k, m, hname, hm, hdead⟩
  | allNodeEnd => exact h.numlivenodes.symm.trans ht

/-- Only what has no kind changes, or what is not said of an object. -/
theorem Frame.of_marks (hkeycount : t.keycount = s.keycount) (hkernelmap : t.kernelmap = s.kernelmap)
    (hnodemap : t.nodemap = s.nodemap) (hmarks : ∀ k, t.markAt k = s.markAt k)
    (hnumlivenodes : t.numlivenodes = s.numlivenodes) : Frame s t where
  keycount := hkeycount.ge
  kernelmap name k hk := by rw [hkernelmap, hk]
  nodemap name k hk := by rw [hnodemap, hk]
  newKernel name k hnone hk := by
    rw [hkernelmap, hnone] at hk
    cases hk
  newNode name k hnone hk := by
    rw [hnodemap, hnone] at hk
    cases hk
  marks k _ := by rw [hmarks]
  same k _ := hmarks k
  numlivenodes := hnumlivenodes

private theorem Frame.refl (s : Server) : Frame s s := .of_marks rfl rfl rfl (fun _ => rfl) rfl

private theorem Frame.sent (h : Frame s t) (more : List (Recipient × ServerMessage)) : Frame s { t with outbox := more } :=
  ⟨h.toGrows.sent more, h.same, h.numlivenodes⟩

private theorem put_markAt (d : Datum) : (s.put key d).markAt k = if k = key then d.bind Info.mark else s.markAt k := by
  rw [markAt, put_datamap]
  split_ifs
  · rfl
  · rfl

private theorem markAt_eq_none (h : s.kindAt k = none) : s.markAt k = none := by
  unfold kindAt at h
  unfold markAt
  cases hd : s.datamap k with
  | none => rfl
  | some d =>
    cases d with
    | none => rfl
    | some info =>
      rw [hd] at h
      have htype : info.type = none := h
      change info.mark = none
      rw [Info.mark, htype]
      rfl

private theorem frame_put {d : Datum} (h : d.bind Info.mark = s.markAt key) : Frame s (s.put key d) := by
  refine .of_marks rfl rfl rfl (fun k => ?_) rfl
  rw [put_markAt]
  split_ifs with hk
  · rw [hk, h]
  · rfl

private theorem frame_filled (s : Server) (key : Key) : Frame s (s.filled key) := by
  unfold filled
  split_ifs with hsome
  · exact .refl s
  · refine frame_put ?_
    rw [markAt, Option.not_isSome_iff_eq_none.1 hsome]
    rfl

private theorem frame_asked (s : Server) (key : Key) : Frame s (s.asked key) := by
  unfold asked
  split
  · rename_i hnull
    refine frame_put ?_
    rw [markAt, hnull]
    rfl
  · exact .refl s

private theorem assigned_markAt {f : Info → Info} (hf : ∀ info, (f info).mark = info.mark) :
    (s.assigned key f).markAt k = s.markAt k := by
  rw [assigned, put_markAt]
  split_ifs with hk
  · subst hk
    rw [Option.bind_some, hf, markAt]
    cases s.datamap k with
    | none => rfl
    | some d => cases d <;> rfl
  · rfl

private theorem frame_withConnection (s : Server) (wkey rkey : Key) (qname : String) :
    Frame s (s.withConnection wkey rkey qname) := by
  refine .of_marks rfl rfl rfl (fun k => ?_) rfl
  have hkeep (t : Server) (key : Key) (f : Info → Info) (hf : ∀ info, (f info).mark = info.mark) :
      (t.assigned key f).markAt k = t.markAt k := assigned_markAt hf
  unfold withConnection
  rw [hkeep, hkeep, hkeep, hkeep]
  all_goals exact fun _ => rfl

private theorem insert_markAt : (insert key info s).markAt k =
    if k = key ∧ s.datamap key = none then info.mark else s.markAt k := by
  unfold insert
  cases hd : s.datamap key with
  | some d => simp
  | none => simp [put_markAt]

/-- The objects below a new key are as they were, and the new one is the only one that a new name leads to. -/
theorem Frame.new (hkeycount : t.keycount = s.keycount + 1) (hnumlivenodes : t.numlivenodes = s.numlivenodes)
    (hmarks : ∀ k, k ≠ s.keycount + 1 → t.markAt k = s.markAt k)
    (hkernelmap : ∀ name k, s.kernelmap name = some k → t.kernelmap name = some k)
    (hnodemap : ∀ name k, s.nodemap name = some k → t.nodemap name = some k)
    (hkernel : ∀ name k, s.kernelmap name = none → t.kernelmap name = some k →
      k = s.keycount + 1 ∧ ∀ m, t.markAt k = some m → m.name = some name ∧ m.live = some false)
    (hnode : ∀ name k, s.nodemap name = none → t.nodemap name = some k →
      k = s.keycount + 1 ∧
        ∀ m, t.markAt k = some m → m.name = some name ∧ m.started = some false ∧ m.dead = some false) :
    Frame s t := by
  have hold (k : Key) (hk : k ≤ s.keycount) : t.markAt k = s.markAt k :=
    hmarks k fun heq => absurd (heq ▸ hk) (Nat.not_succ_le_self _)
  refine ⟨⟨hkeycount ▸ Nat.le_succ _, hkernelmap, hnodemap, fun name k hnone hk => ?_, fun name k hnone hk => ?_,
    fun k hk => by rw [hold k hk]⟩, hold, hnumlivenodes⟩
  · obtain ⟨rfl, hm⟩ := hkernel name k hnone hk
    exact ⟨hkeycount.ge, hm⟩
  · obtain ⟨rfl, hm⟩ := hnode name k hnone hk
    exact ⟨hkeycount.ge, hm⟩

private theorem insert_fields (key : Key) (info : Info) (s : Server) : (insert key info s).kernelmap = s.kernelmap ∧
    (insert key info s).nodemap = s.nodemap ∧ (insert key info s).keycount = s.keycount ∧
      (insert key info s).numlivenodes = s.numlivenodes := by
  unfold insert
  split_ifs
  · exact ⟨rfl, rfl, rfl, rfl⟩
  · exact ⟨rfl, rfl, rfl, rfl⟩

private theorem frame_withKernel (h : Typed s) (sender hostname servname : String) (hname : s.kernelmap name = none) :
    Frame s (s.withKernel sender name hostname servname) := by
  let info := newKernel sender name hostname servname (s.keycount + 1)
  obtain ⟨hkernelmap, hnodemap, hkeycount, hnumlivenodes⟩ :=
    insert_fields (s.keycount + 1) info { s with keycount := s.keycount + 1 }
  have hmarks (k : Key) : (s.withKernel sender name hostname servname).markAt k =
      if k = s.keycount + 1 ∧ s.datamap (s.keycount + 1) = none then info.mark else s.markAt k :=
    insert_markAt (s := { s with keycount := s.keycount + 1 })
  have hmap (name' : String) : (s.withKernel sender name hostname servname).kernelmap name' =
      if name' = name then some (s.keycount + 1) else s.kernelmap name' := by
    change Function.update (insert (s.keycount + 1) info _).kernelmap name _ name' = _
    rw [hkernelmap, Function.update_apply]
  refine .new hkeycount hnumlivenodes (fun k hk => ?_) (fun name' k hk => ?_) (fun name' k hk => ?_)
    (fun name' k hnone hk => ?_) fun name' k hnone hk => ?_
  · rw [hmarks, if_neg fun heq => hk heq.1]
  · rw [hmap, if_neg, hk]
    rintro rfl
    rw [hname] at hk
    cases hk
  · exact (congrFun hnodemap name').trans hk
  · rw [hmap] at hk
    split_ifs at hk with heq
    · cases hk
      refine ⟨rfl, fun m hm => ?_⟩
      rw [hmarks, markAt_eq_none h.kindAt_succ] at hm
      split_ifs at hm
      cases hm
      exact ⟨congrArg some heq.symm, rfl⟩
    · rw [hnone] at hk
      cases hk
  · rw [show (s.withKernel sender name hostname servname).nodemap = s.nodemap from hnodemap, hnone] at hk
    cases hk

private theorem frame_withNode (kernelkey : Key) (hname : s.nodemap name = none) :
    Frame s (s.withNode kernelkey name) := by
  have hmarks (k : Key) : (s.withNode kernelkey name).markAt k =
      if k = s.keycount + 1 then (newNode kernelkey name (s.keycount + 1)).mark else s.markAt k := put_markAt _
  have hmap (name' : String) : (s.withNode kernelkey name).nodemap name' =
      if name' = name then some (s.keycount + 1) else s.nodemap name' := Function.update_apply ..
  refine .new rfl rfl (fun k hk => ?_) (fun name' k hk => hk) (fun name' k hk => ?_) (fun name' k hnone hk => ?_)
    fun name' k hnone hk => ?_
  · rw [hmarks, if_neg hk]
  · rw [hmap, if_neg, hk]
    rintro rfl
    rw [hname] at hk
    cases hk
  · have hold : s.kernelmap name' = some k := hk
    rw [hnone] at hold
    cases hold
  · rw [hmap] at hk
    split_ifs at hk with heq
    · cases hk
      refine ⟨rfl, fun m hm => ?_⟩
      rw [hmarks, if_pos rfl] at hm
      cases hm
      exact ⟨congrArg some heq.symm, rfl, rfl⟩
    · rw [hnone] at hk
      cases hk

private theorem frame_withEndpointAt {d : Datum} (hd : s.datamap key = some d) (name : String) :
    Frame s (s.withEndpointAt key d name) := by
  have hfields : (s.withEndpointAt key d name).keycount = s.keycount + 1 ∧
      (s.withEndpointAt key d name).kernelmap = s.kernelmap ∧ (s.withEndpointAt key d name).nodemap = s.nodemap ∧
        (s.withEndpointAt key d name).numlivenodes = s.numlivenodes := by
    cases d with
    | none => exact ⟨rfl, rfl, rfl, rfl⟩
    | some info => exact ⟨rfl, rfl, rfl, rfl⟩
  obtain ⟨hkeycount, hkernelmap, hnodemap, hnumlivenodes⟩ := hfields
  refine .new hkeycount hnumlivenodes (fun k hk => ?_) (fun name' k hk => by rw [hkernelmap, hk])
    (fun name' k hk => by rw [hnodemap, hk]) (fun name' k hnone hk => ?_) fun name' k hnone hk => ?_
  · rw [withEndpointAt, put_markAt, if_neg hk]
    cases d with
    | none => rfl
    | some info =>
      dsimp only [addEndpoint]
      rw [put_markAt]
      split_ifs with heq
      · rw [heq, markAt, hd]
        rfl
      · rfl
  · rw [hkernelmap, hnone] at hk
    cases hk
  · rw [hnodemap, hnone] at hk
    cases hk

private theorem frame_handle (h : Typed s) (sender : String) (msgid : UInt32) (request : Request) :
    Frame s (final (handle sender msgid request s)) := by
  -- a reply alone changes nothing else
  have hsame {r : EStateM.Result Stop Server Unit} {reply : Reply} (hrun : r = .ok () (replied sender msgid reply s)) :
      Frame s (final r) := by
    rw [hrun]
    exact (Frame.refl s).sent _
  cases request with
  | setupKernel name hostname servname =>
    by_cases hname : s.kernelmap name = none
    · have hrun : handle sender msgid (.setupKernel name hostname servname) s = .ok () _ := setupKernel_run hname
      rw [hrun]
      exact (frame_withKernel h sender hostname servname hname).sent _
    · have hrun : handle sender msgid (.setupKernel name hostname servname) s = .ok () s :=
        setupKernel_taken (Option.isSome_iff_ne_none.2 hname)
      rw [hrun]
      exact .refl s
  | getKernelInfo which =>
    have hrun : handle sender msgid (.getKernelInfo which) s = getKernelInfo sender msgid (keyOf s.kernelmap which) s := rfl
    rw [hrun]
    cases keyOf s.kernelmap which with
    | none => exact hsame (getKernelInfo_none rfl)
    | some k =>
      rcases s.lookup_cases k .kernelinfo with hd | ⟨info, hd, htype⟩ | ⟨hsome, hkind⟩
      · exact hsame (getKernelInfo_none hd)
      · exact hsame (getKernelInfo_run hd htype)
      · rw [getKernelInfo_error hsome hkind]
        exact frame_asked s k
  | createNodeKey kernelkey name =>
    by_cases hname : s.nodemap name = none
    · have hrun : handle sender msgid (.createNodeKey kernelkey name) s = .ok () _ := createNodeKey_run hname
      rw [hrun]
      exact (frame_withNode kernelkey hname).sent _
    · exact hsame (createNodeKey_taken (Option.isSome_iff_ne_none.2 hname))
  | getNodeInfo which =>
    have hrun : handle sender msgid (.getNodeInfo which) s = getNodeInfo sender msgid (keyOf s.nodemap which) s := rfl
    rw [hrun]
    cases keyOf s.nodemap which with
    | none => exact hsame (getNodeInfo_none rfl)
    | some k =>
      rcases s.lookup_cases k .nodeinfo with hd | ⟨info, hd, htype⟩ | ⟨hsome, hkind⟩
      · exact hsame (getNodeInfo_none hd)
      · exact hsame (getNodeInfo_run hd htype)
      · rw [getNodeInfo_error hsome hkind]
        exact .refl s
  | getNumNodeLive => exact hsame rfl
  | getCreateEndpointKey side nodekey name =>
    cases hd : s.datamap nodekey with
    | none => exact hsame (getCreateEndpointKey_none hd)
    | some d =>
      cases hep : endpoint d name with
      | none =>
        have hrun : handle sender msgid (.getCreateEndpointKey side nodekey name) s = .ok () _ :=
          getCreateEndpointKey_new hd hep
        rw [hrun]
        exact (frame_withEndpointAt hd name).sent _
      | some epkey =>
        obtain ⟨info, hinfo, htype⟩ := kindAt_eq.1 (h.endpoints nodekey d name epkey hd hep)
        exact hsame (getCreateEndpointKey_run hd hep hinfo htype)
  | getEndpointInfo side key =>
    rcases s.lookup_cases key .endpointinfo with hd | ⟨info, hd, htype⟩ | ⟨hsome, hkind⟩
    · exact hsame (getEndpointInfo_none hd)
    · exact hsame (getEndpointInfo_run hd htype)
    · have hrun : handle sender msgid (.getEndpointInfo side key) s = .error (.assertion "type") s :=
        getEndpointInfo_error hsome hkind
      rw [hrun]
      exact .refl s

/-! ### The signals -/

/-- The mark is what is waited for. -/
def Shown (m : Mark) : Awaited → Prop
  | .kernelStart name => m.name = some name ∧ m.kind = .kernelinfo ∧ m.live = some true
  | .nodeStart name => m.name = some name ∧ m.started = some true
  | .nodeEnd name => m.name = some name ∧ m.dead = some true
  | .allNodeEnd => False

variable {info' : Info} {m m' : Mark}

private theorem grows_put (hd : s.markAt key = some m) (hm' : info'.mark = some m') (hkind : m'.kind = m.kind)
    (hname : m'.name = m.name) : Grows s (s.put key (some info')) where
  keycount := le_refl _
  kernelmap _ _ hk := hk
  nodemap _ _ hk := hk
  newKernel name k hnone hk := by
    have hold : s.kernelmap name = some k := hk
    rw [hnone] at hold
    cases hold
  newNode name k hnone hk := by
    have hold : s.nodemap name = some k := hk
    rw [hnone] at hold
    cases hold
  marks k _ := by
    rw [put_markAt]
    split_ifs with heq
    · rw [heq, hd, Option.bind_some, hm', Option.map_some, Option.map_some, hkind, hname]
    · rfl

/-- What comes to be so by a change of one object is said by its new mark. -/
theorem due_put (hs : Named s) (hd : s.markAt key = some m) (hm' : info'.mark = some m') (hname : m'.name = m.name)
    (hdue : (s.put key (some info')).Due e) (he : e ≠ .allNodeEnd) : s.Due e ∨ Shown m' e ∧ ¬ Shown m e := by
  have hmarks (k : Key) (n : Mark) (hn : (s.put key (some info')).markAt k = some n) :
      k = key ∧ n = m' ∨ s.markAt k = some n := by
    rw [put_markAt] at hn
    split_ifs at hn with heq
    · rw [Option.bind_some, hm'] at hn
      cases hn
      exact .inl ⟨heq, rfl⟩
    · exact .inr hn
  cases e with
  | kernelStart name =>
    obtain ⟨k, n, hk, hn, hkind, hlive⟩ := hdue
    have hold : s.kernelmap name = some k := hk
    rcases hmarks k n hn with ⟨rfl, rfl⟩ | hn
    · have hmname := (hs.kernels name k hold).2 m hd
      by_cases hshown : Shown m (.kernelStart name)
      · exact .inl ⟨k, m, hold, hd, hshown.2⟩
      · exact .inr ⟨⟨hname.trans hmname, hkind, hlive⟩, hshown⟩
    · exact .inl ⟨k, n, hold, hn, hkind, hlive⟩
  | nodeStart name =>
    obtain ⟨k, n, hk, hn, hstarted⟩ := hdue
    have hold : s.nodemap name = some k := hk
    rcases hmarks k n hn with ⟨rfl, rfl⟩ | hn
    · have hmname := (hs.nodes name k hold).2 m hd
      by_cases hshown : Shown m (.nodeStart name)
      · exact .inl ⟨k, m, hold, hd, hshown.2⟩
      · exact .inr ⟨⟨hname.trans hmname, hstarted⟩, hshown⟩
    · exact .inl ⟨k, n, hold, hn, hstarted⟩
  | nodeEnd name =>
    obtain ⟨k, n, hk, hn, hdead⟩ := hdue
    have hold : s.nodemap name = some k := hk
    rcases hmarks k n hn with ⟨rfl, rfl⟩ | hn
    · have hmname := (hs.nodes name k hold).2 m hd
      by_cases hshown : Shown m (.nodeEnd name)
      · exact .inl ⟨k, m, hold, hd, hshown.2⟩
      · exact .inr ⟨⟨hname.trans hmname, hdead⟩, hshown⟩
    · exact .inl ⟨k, n, hold, hn, hdead⟩
  | allNodeEnd => exact absurd rfl he

/-- The key of a signal for a node is the key of a node. -/
def SignalsNode (s : Server) : ClientMessage → Prop
  | .signalNodeStart key | .signalNodeEnd key => s.kindAt key = some .nodeinfo
  | _ => True

/-- What has come to be is in a notice to everyone. -/
def Announces (s t : Server) : Prop :=
  ∀ e, t.Due e → s.Due e ∨ ∃ msg, (.everyone, .broadcast msg) ∈ t.outbox ∧ e.told msg = true

private theorem mark_of_type {kind : Kind} (htype : info.type = some kind) : info.mark = some
    { kind := kind, name := info.name, live := info.live, started := info.started, dead := info.dead } := by
  rw [Info.mark, htype]
  rfl

private theorem markAt_of_type {kind : Kind} (hd : s.datamap key = some (some info)) (htype : info.type = some kind) :
    s.markAt key = some
      { kind := kind, name := info.name, live := info.live, started := info.started, dead := info.dead } := by
  rw [markAt, hd]
  exact mark_of_type htype

theorem due_sent (more : List (Recipient × ServerMessage)) (h : Due { s with outbox := more } e) : s.Due e := by
  cases e with
  | kernelStart name | nodeStart name | nodeEnd name | allNodeEnd => exact h

private theorem announces_signalKernel (hs : Named s) (live : Bool) (key : Key) :
    Grows s (final (signalKernel live key s)) ∧ Announces s (final (signalKernel live key s)) := by
  by_cases hkind : s.kindAt key = some .kernelinfo
  · obtain ⟨info, hd, htype⟩ := kindAt_eq.1 hkind
    rw [signalKernel_run hd htype]
    have hmark := markAt_of_type hd htype
    have hmark' : Info.mark { info with live := some live } = some
        { kind := .kernelinfo, name := info.name, live := some live, started := info.started, dead := info.dead } :=
      mark_of_type htype
    refine ⟨(grows_put hmark hmark' rfl rfl).sent _, fun e hdue => ?_⟩
    have hput := due_sent _ hdue
    cases e with
    | kernelStart name =>
      refine (due_put hs hmark hmark' rfl hput fun heq => by cases heq).imp_right fun ⟨hshown, _⟩ => ?_
      refine ⟨_, List.mem_append_right _ (List.mem_singleton_self _), ?_⟩
      obtain ⟨hname, -, hlive⟩ := hshown
      have hname' : info.name = some name := hname
      have hlive' : some live = some true := hlive
      simp [Awaited.told, hname', hlive']
    | nodeStart name =>
      exact .inl ((due_put hs hmark hmark' rfl hput fun heq => by cases heq).resolve_right fun hshown => hshown.2 hshown.1)
    | nodeEnd name =>
      exact .inl ((due_put hs hmark hmark' rfl hput fun heq => by cases heq).resolve_right fun hshown => hshown.2 hshown.1)
    | allNodeEnd => exact .inl hput
  · rw [signalKernel_error hkind]
    exact ⟨(frame_filled s key).toGrows, fun e hdue => .inl ((frame_filled s key).due hs hdue)⟩

/-- The part of `SignalNodeStart` and `SignalNodeEnd` after the number of nodes has been changed. -/
theorem announces_signalNode (hs : Named s) (count : UInt32) (hkind : s.kindAt key = some .nodeinfo) {mark : Info → Info}
    (hmark : ∀ info, (mark info).type = info.type ∧ (mark info).name = info.name)
    (htold : ∀ info m m', Info.mark info = some m → Info.mark (mark info) = some m' →
      ∀ e, Shown m' e → ¬ Shown m e → ∀ n, e.told { numlivenodes := n, nodeinfo := some (mark info) } = true) :
    Grows s (final (signalNode mark key { s with numlivenodes := count })) ∧
      Announces s (final (signalNode mark key { s with numlivenodes := count })) := by
  obtain ⟨info, hd, htype⟩ := kindAt_eq.1 hkind
  have hrun : signalNode mark key { s with numlivenodes := count } = .ok () _ := signalNode_run hd htype
  have hmarkAt := markAt_of_type hd htype
  have htype' : (mark info).type = some .nodeinfo := (hmark info).1.trans htype
  have hmark' := mark_of_type htype'
  have hgrows := grows_put hmarkAt hmark' rfl (hmark info).2
  rw [hrun]
  refine ⟨⟨hgrows.keycount, hgrows.kernelmap, hgrows.nodemap, hgrows.newKernel, hgrows.newNode, hgrows.marks⟩,
    fun e hdue => ?_⟩
  have hput := due_sent _ hdue
  by_cases he : e = .allNodeEnd
  · subst he
    have hzero : count = 0 := hput
    refine .inr ⟨_, List.mem_append_right _ (List.mem_singleton_self _), ?_⟩
    simp [Awaited.told, put, hzero]
  · have hput' : (s.put key (some (mark info))).Due e := by
      cases e with
      | kernelStart name | nodeStart name | nodeEnd name => exact hput
      | allNodeEnd => exact absurd rfl he
    rcases due_put hs hmarkAt hmark' (hmark info).2 hput' he with hold | ⟨hshown, hnot⟩
    · exact .inl hold
    · exact .inr ⟨_, List.mem_append_right _ (List.mem_singleton_self _),
        htold info _ _ (mark_of_type htype) hmark' e hshown hnot _⟩

private theorem told_start {info : Info} {m m' : Mark} (hm : info.mark = some m) (hm' : info.start.mark = some m')
    (hshown : Shown m' e) (hnot : ¬ Shown m e) (n : UInt32) :
    e.told { numlivenodes := n, nodeinfo := some info.start } = true := by
  obtain ⟨kind, htype, rfl⟩ := Option.map_eq_some_iff.1 hm
  obtain ⟨kind', htype', rfl⟩ := Option.map_eq_some_iff.1 hm'
  have hkind : kind' = kind := Option.some.inj (htype'.symm.trans htype)
  subst hkind
  cases e with
  | nodeStart name =>
    have hname : info.name = some name := hshown.1
    simp [Awaited.told, Info.start, hname]
  | kernelStart name | nodeEnd name | allNodeEnd => exact absurd hshown hnot

private theorem told_kill {info : Info} {m m' : Mark} (hm : info.mark = some m) (hm' : info.kill.mark = some m')
    (hshown : Shown m' e) (hnot : ¬ Shown m e) (n : UInt32) :
    e.told { numlivenodes := n, nodeinfo := some info.kill } = true := by
  obtain ⟨kind, htype, rfl⟩ := Option.map_eq_some_iff.1 hm
  obtain ⟨kind', htype', rfl⟩ := Option.map_eq_some_iff.1 hm'
  have hkind : kind' = kind := Option.some.inj (htype'.symm.trans htype)
  subst hkind
  cases e with
  | nodeEnd name =>
    have hname : info.name = some name := hshown.1
    simp [Awaited.told, Info.kill, hname]
  | kernelStart name | nodeStart name | allNodeEnd => exact absurd hshown hnot

theorem dispatch_run {msg : ClientMessage} (hopen : s.shutdown = false) :
    dispatchMessage sender msg s = (match msg with
      | .request msgid request => handle sender msgid request
      | .signalKernelStart key => signalKernel true key
      | .signalKernelEnd key => signalKernel false key
      | .signalNodeStart key => signalNodeStart key
      | .signalNodeEnd key => signalNodeEnd key
      | .connectEndpoints writerkey readerkey qname => connectEndpoints writerkey readerkey qname
      | .kernel kernelkey msg => routeKernelMessage kernelkey msg
      | .terminate => terminate
      | .log _ => return ()) s := by
  have hrunning : ¬ s.shutdown = true := by
    rw [hopen]
    exact Bool.false_ne_true
  unfold dispatchMessage
  rw [bind_ok get_run]
  exact congrFun (if_neg hrunning) s

/-- What comes to be is announced, by every message but a signal with a wrong key. -/
theorem dispatch_due (h : Typed s) (hs : Named s) (hopen : s.shutdown = false) (sender : String) {msg : ClientMessage}
    (hsignal : s.SignalsNode msg) : Grows s (final (dispatchMessage sender msg s)) ∧
      Announces s (final (dispatchMessage sender msg s)) := by
  have hframe {t : Server} (hframe : Frame s t) : Grows s t ∧ Announces s t :=
    ⟨hframe.toGrows, fun e hdue => .inl (hframe.due hs hdue)⟩
  rw [dispatch_run hopen]
  cases msg with
  | request msgid request => exact hframe (frame_handle h sender msgid request)
  | signalKernelStart key => exact announces_signalKernel hs true key
  | signalKernelEnd key => exact announces_signalKernel hs false key
  | signalNodeStart key =>
    exact announces_signalNode hs (s.numlivenodes + 1) hsignal (fun _ => ⟨rfl, rfl⟩)
      fun info m m' hm hm' e => told_start hm hm'
  | signalNodeEnd key =>
    exact announces_signalNode hs (s.numlivenodes - 1) hsignal (fun _ => ⟨rfl, rfl⟩)
      fun info m m' hm hm' e => told_kill hm hm'
  | connectEndpoints writerkey readerkey qname =>
    refine hframe ?_
    dsimp only
    rw [connectEndpoints_run]
    exact frame_withConnection s writerkey readerkey qname
  | kernel kernelkey msg =>
    refine hframe ?_
    dsimp only
    unfold routeKernelMessage
    rw [bind_ok (datum_eq kernelkey s)]
    exact (frame_filled s kernelkey).sent _
  | terminate => exact hframe (.of_marks rfl rfl rfl (fun _ => rfl) rfl)
  | log msg => exact hframe (.refl s)

/-- A query is answered, with what is so, or it finds the wrong object under the key of a kernel. -/
theorem query_reply (h : Typed s) (hs : Named s) (hopen : s.shutdown = false) (hsent : s.outbox = []) (sender : String)
    (msgid : UInt32) (e : Awaited) :
    (∃ reply, (final (dispatchMessage sender (.request msgid e.query) s)).outbox =
        [(.client sender, .reply msgid reply)] ∧ (s.Due e → e.answered reply = true)) ∨
      (final (dispatchMessage sender (.request msgid e.query) s)).outbox = [] ∧ s.Dud e := by
  have hreply (reply : Reply) : (replied sender msgid reply s).outbox = [(.client sender, .reply msgid reply)] := by
    simp [replied, sent, hsent]
  -- a node is only ever asked for by its name, and the key of a name is that of a node
  have hnode {name : String} (e : Awaited) (hquery : e.query = .getNodeInfo (.inl name))
      (hdue : s.Due e → ∃ k m, s.nodemap name = some k ∧ s.markAt k = some m)
      (hanswered : ∀ k info, s.nodemap name = some k → s.datamap k = some (some info) → info.type = some .nodeinfo →
        s.Due e → e.answered { success := true, nodeinfo := some info } = true) :
      ∃ reply, (final (dispatchMessage sender (.request msgid e.query) s)).outbox =
        [(.client sender, .reply msgid reply)] ∧ (s.Due e → e.answered reply = true) := by
    rw [dispatch_run hopen, hquery]
    cases hname : s.nodemap name with
    | none =>
      have hrun : handle sender msgid (.getNodeInfo (.inl name)) s = .ok () (replied sender msgid { success := false } s) :=
        getNodeInfo_none (by rw [keyOf, hname]; rfl)
      refine ⟨_, (congrArg (fun r => (final r).outbox) hrun).trans (hreply _), fun hd => ?_⟩
      obtain ⟨k, m, hk, -⟩ := hdue hd
      rw [hname] at hk
      cases hk
    | some k =>
      obtain ⟨info, hd, htype⟩ := kindAt_eq.1 (h.nodes name k hname)
      have hrun : handle sender msgid (.getNodeInfo (.inl name)) s =
          .ok () (replied sender msgid { success := true, nodeinfo := some info } s) := by
        change getNodeInfo sender msgid (s.nodemap name) s = _
        rw [hname]
        exact getNodeInfo_run hd htype
      exact ⟨_, (congrArg (fun r => (final r).outbox) hrun).trans (hreply _), hanswered k info hname hd htype⟩
  cases e with
  | kernelStart name =>
    rw [dispatch_run hopen]
    have hhandle : handle sender msgid (.getKernelInfo (.inl name)) s =
        getKernelInfo sender msgid (s.kernelmap name) s := rfl
    dsimp only [Awaited.query]
    rw [hhandle]
    cases hname : s.kernelmap name with
    | none =>
      refine .inl ⟨_, (congrArg (fun r => (final r).outbox) (getKernelInfo_none rfl)).trans (hreply _), fun hd => ?_⟩
      obtain ⟨k, m, hk, -⟩ := hd
      rw [hname] at hk
      cases hk
    | some k =>
      rcases s.lookup_cases k .kernelinfo with hd | ⟨info, hd, htype⟩ | ⟨hsome, hkind⟩
      · have hrun : getKernelInfo sender msgid (some k) s = .ok () (replied sender msgid { success := false } s) :=
          getKernelInfo_none hd
        refine .inl ⟨_, (congrArg (fun r => (final r).outbox) hrun).trans (hreply _), fun hdue => ?_⟩
        obtain ⟨k', m, hk, hm, -⟩ := hdue
        rw [hname] at hk
        cases hk
        rw [markAt, hd] at hm
        cases hm
      · refine .inl ⟨_, (congrArg (fun r => (final r).outbox) (getKernelInfo_run hd htype)).trans (hreply _),
          fun hdue => ?_⟩
        obtain ⟨k', m, hk, hm, -, hlive⟩ := hdue
        rw [hname] at hk
        cases hk
        rw [markAt_of_type hd htype] at hm
        cases hm
        have hlive' : info.live = some true := hlive
        simp [Awaited.answered, hlive']
      -- the name of a kernel may have a key under which there is no kernel: the assertion fails and there is no reply
      · rw [getKernelInfo_error hsome hkind]
        refine .inr ⟨(quiet_asked k).1.trans hsent, k, hname, (hs.kernels name k hname).1, fun m hm hk => hkind ?_⟩
        obtain ⟨d, hd, hm⟩ := Option.bind_eq_some_iff.1 hm
        obtain ⟨info, rfl, hm⟩ := Option.bind_eq_some_iff.1 hm
        obtain ⟨kind, htype, rfl⟩ := Option.map_eq_some_iff.1 hm
        exact kindAt_eq.2 ⟨info, hd, htype.trans (congrArg some hk)⟩
  | nodeStart name =>
    refine .inl (hnode (.nodeStart name) rfl (fun ⟨k, m, hk, hm, _⟩ => ⟨k, m, hk, hm⟩)
      fun k info hk hd htype hdue => ?_)
    obtain ⟨k', m, hk', hm, hstarted⟩ := hdue
    rw [hk] at hk'
    cases hk'
    rw [markAt_of_type hd htype] at hm
    cases hm
    have hstarted' : info.started = some true := hstarted
    simp [Awaited.answered, hstarted']
  | nodeEnd name =>
    refine .inl (hnode (.nodeEnd name) rfl (fun ⟨k, m, hk, hm, _⟩ => ⟨k, m, hk, hm⟩)
      fun k info hk hd htype hdue => ?_)
    obtain ⟨k', m, hk', hm, hdead⟩ := hdue
    rw [hk] at hk'
    cases hk'
    rw [markAt_of_type hd htype] at hm
    cases hm
    have hdead' : info.dead = some true := hdead
    simp [Awaited.answered, hdead']
  | allNodeEnd =>
    rw [dispatch_run hopen]
    refine .inl ⟨{ success := true, numlivenodes := some s.numlivenodes }, hreply _, fun hdue => ?_⟩
    have hzero : s.numlivenodes = 0 := hdue
    simp [Awaited.answered, hzero]

end Server

end ProcessNetwork.RemoteContext
