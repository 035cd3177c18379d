import ProcessNetwork.RemoteContextServer

/-!
# The replies of the server

What is under a key keeps its kind, the endpoints of a node are endpoints and the nodes are nodes (`Typed`).  So a request
is answered, by one message to its sender, unless the name of a new kernel is taken or the key belongs to an object of
another kind than the request is about (`handle_cases`).
-/

namespace ProcessNetwork.RemoteContext

open Exceptions
open Registry (Key Stop Side)

namespace Server

/-! ### What the table holds -/

section Table

variable {s t : Server} {key : Key} {info : Info} {d : Datum} {kind : Kind} {name : String}

/-- The endpoints of a node are endpoints, the nodes are nodes, and every object with a kind has a key that was given out. -/
structure Typed (s : Server) : Prop where
  endpoints : ∀ k d name ep, s.datamap k = some d → endpoint d name = some ep → s.kindAt ep = some .endpointinfo
  nodes : ∀ name k, s.nodemap name = some k → s.kindAt k = some .nodeinfo
  fresh : ∀ k, s.kindAt k ≠ none → k ≤ s.keycount

theorem Typed.congr (h : Typed s) (hdata : t.datamap = s.datamap) (hnodes : t.nodemap = s.nodemap)
    (hcount : s.keycount ≤ t.keycount) : Typed t := by
  have hkind (k : Key) : t.kindAt k = s.kindAt k := by rw [kindAt, hdata, ← kindAt]
  refine ⟨fun k d name ep hk hep => ?_, fun name k hk => ?_, fun k hk => ?_⟩
  · rw [hkind]
    exact h.endpoints k d name ep (hdata ▸ hk) hep
  · rw [hkind]
    exact h.nodes name k (hnodes ▸ hk)
  · rw [hkind] at hk
    exact (h.fresh k hk).trans hcount

/-- The object under a key keeps its kind, and its new endpoints are endpoints. -/
theorem Typed.put (h : Typed s) (hkind : s.kindAt key ≠ none → d.type = s.kindAt key)
    (hfresh : d.type ≠ none → key ≤ s.keycount)
    (hends : ∀ name ep, endpoint d name = some ep → s.kindAt ep = some .endpointinfo) : Typed (s.put key d) := by
  have hkeeps {k : Key} {kind : Kind} (hk : s.kindAt k = some kind) : (s.put key d).kindAt k = some kind := by
    rw [put_kindAt]
    split_ifs with heq
    · subst heq
      rw [hkind (by rw [hk]; exact Option.some_ne_none _), hk]
    · exact hk
  refine ⟨fun k d' name ep hk hep => ?_, fun name k hk => hkeeps (h.nodes name k hk), fun k hk => ?_⟩
  · rw [put_datamap] at hk
    split_ifs at hk with heq
    · cases hk
      exact hkeeps (hends name ep hep)
    · exact hkeeps (h.endpoints k d' name ep hk hep)
  · rw [put_kindAt] at hk
    split_ifs at hk with heq
    · exact heq ▸ hfresh hk
    · exact h.fresh k hk

theorem endpoint_none {name : String} (h : info.endpoints = none) : endpoint (some info) name = none := by
  rw [endpoint, Option.bind_some, h]
  rfl

/-- The object under a key with other members than its kind and its endpoints changed. -/
theorem Typed.edit (h : Typed s) (hd : s.datamap key = some (some info)) {info' : Info} (htype : info'.type = info.type)
    (hends : info'.endpoints = info.endpoints) : Typed (s.put key (some info')) := by
  have hkind : s.kindAt key = info.type := by
    rw [kindAt, hd]
    rfl
  refine h.put (fun _ => htype.trans hkind.symm) (fun hne => h.fresh key ?_) fun name ep hep => ?_
  · rw [hkind, ← htype]
    exact hne
  · refine h.endpoints key _ name ep hd ?_
    rw [endpoint, Option.bind_some] at hep ⊢
    rwa [hends] at hep

private theorem Typed.blank (h : Typed s) (hnone : s.kindAt key = none) {info : Info} (htype : info.type = none)
    (hends : info.endpoints = none) : Typed (s.put key (some info)) :=
  h.put (fun hne => absurd hnone hne) (fun hne => absurd htype hne) fun name ep hep => by
    rw [endpoint_none hends] at hep
    cases hep

private theorem Typed.filled (h : Typed s) (key : Key) : Typed (s.filled key) := by
  unfold Server.filled
  split_ifs with hk
  · exact h
  · refine h.put (fun hne => ?_) (fun hne => absurd rfl hne) fun name ep hep => by cases hep
    rw [kindAt, Option.not_isSome_iff_eq_none.1 hk] at hne
    exact absurd rfl hne

private theorem Typed.asked (h : Typed s) (key : Key) : Typed (s.asked key) := by
  unfold Server.asked
  split
  · rename_i hk
    have hnone : s.kindAt key = none := by
      rw [kindAt, hk]
      rfl
    exact h.blank hnone rfl rfl
  · exact h

private theorem Typed.assigned (h : Typed s) (key : Key) {f : Info → Info} (htype : ∀ info, (f info).type = info.type)
    (hends : ∀ info, (f info).endpoints = info.endpoints) : Typed (s.assigned key f) := by
  unfold Server.assigned
  cases hd : s.datamap key with
  | some d =>
    cases d with
    | some info => exact h.edit hd (htype info) (hends info)
    | none =>
      have hnone : s.kindAt key = none := by
        rw [kindAt, hd]
        rfl
      exact h.blank hnone (htype {}) (hends {})
  | none =>
    have hnone : s.kindAt key = none := by
      rw [kindAt, hd]
      rfl
    exact h.blank hnone (htype {}) (hends {})

private theorem Typed.withConnection (h : Typed s) (wkey rkey : Key) (qname : String) :
    Typed (s.withConnection wkey rkey qname) := by
  have hfirst := h.assigned wkey (f := fun info => { info with readerkey := some rkey }) (fun _ => rfl) fun _ => rfl
  have hsecond := hfirst.assigned rkey (f := fun info => { info with writerkey := some wkey }) (fun _ => rfl) fun _ => rfl
  have hthird := hsecond.assigned rkey (f := fun info => { info with qname := some qname }) (fun _ => rfl) fun _ => rfl
  exact hthird.assigned wkey (fun _ => rfl) fun _ => rfl

theorem Typed.kindAt_succ (h : Typed s) : s.kindAt (s.keycount + 1) = none := by
  by_contra hne
  exact absurd (h.fresh _ hne) (Nat.not_succ_le_self _)

/-- A new object under the next key, which had none with a kind. -/
theorem Typed.new (h : Typed s) (hends : ∀ name, endpoint (some info) name = none) :
    Typed (Server.put (s.keycount + 1) (some info) { s with keycount := s.keycount + 1 }) := by
  have hcount : Typed { s with keycount := s.keycount + 1 } := h.congr rfl rfl (Nat.le_succ _)
  refine hcount.put (fun hne => absurd h.kindAt_succ hne) (fun _ => le_refl _) fun name ep hep => ?_
  rw [hends] at hep
  cases hep

private theorem Typed.named (h : Typed s) (hkey : s.kindAt key = some .nodeinfo) (name : String) :
    Typed { s with nodemap := Function.update s.nodemap name (some key) } where
  endpoints := h.endpoints
  nodes name' k hk := by
    dsimp only at hk
    by_cases heq : name' = name
    · subst heq
      rw [Function.update_self] at hk
      cases hk
      exact hkey
    · rw [Function.update_of_ne heq] at hk
      exact h.nodes name' k hk
  fresh := h.fresh

private theorem Typed.withKernel (h : Typed s) (sender name hostname servname : String) :
    Typed (s.withKernel sender name hostname servname) := by
  have hinsert : Typed (insert (s.keycount + 1) (newKernel sender name hostname servname (s.keycount + 1))
      { s with keycount := s.keycount + 1 }) := by
    unfold insert
    split_ifs with hsome
    · exact h.congr rfl rfl (Nat.le_succ _)
    · exact h.new fun _ => rfl
  exact hinsert.congr rfl rfl (le_refl _)

private theorem Typed.withNode (h : Typed s) (kernelkey : Key) (name : String) : Typed (s.withNode kernelkey name) := by
  have hends (name' : String) : endpoint (some (newNode kernelkey name (s.keycount + 1))) name' = none := rfl
  refine (h.new hends).named ?_ name
  rw [put_kindAt, if_pos rfl]
  rfl

private theorem put_put (s : Server) (key : Key) (d d' : Datum) : (s.put key d').put key d = s.put key d := by
  simp [put]

theorem put_comm (s : Server) {key key' : Key} (h : key ≠ key') (d d' : Datum) :
    (s.put key d).put key' d' = (s.put key' d').put key d := by
  simp [put, Function.update_comm h]

theorem endpoint_withEndpoint (name' : String) (epkey : Key) : endpoint (some (withEndpoint name epkey info)) name' =
    if name' = name then some epkey else endpoint (some info) name' := by
  by_cases hname : name' = name
  · subst hname
    simp [endpoint, withEndpoint]
  · cases hends : info.endpoints <;> simp [endpoint, withEndpoint, hname, hends]

private theorem Typed.withEndpointAt (h : Typed s) (hd : s.datamap key = some d) (name : String) :
    Typed (s.withEndpointAt key d name) := by
  let ep := newEndpoint key (d.bind Info.kernelkey) name (s.keycount + 1)
  have hends (name' : String) : endpoint (some ep) name' = none := rfl
  have hnew := h.new hends
  cases d with
  | none => exact hnew
  | some info =>
    change Typed (Server.put _ _ (Server.put _ _ _))
    by_cases heq : key = s.keycount + 1
    · subst heq
      rw [put_put]
      exact hnew
    · rw [put_comm _ heq]
      have hkind : s.kindAt key = info.type := by
        rw [kindAt, hd]
        rfl
      have hold : (Server.put (s.keycount + 1) (some ep) { s with keycount := s.keycount + 1 }).kindAt key = info.type := by
        rw [put_kindAt, if_neg heq]
        exact hkind
      refine hnew.put (fun _ => hold.symm) (fun hne => hnew.fresh key (by rwa [hold])) fun name' ep' hep' => ?_
      rw [endpoint_withEndpoint] at hep'
      rw [put_kindAt]
      split_ifs at hep' with hname
      · cases hep'
        rw [if_pos rfl]
        rfl
      · have hep := h.endpoints key _ name' ep' hd hep'
        split_ifs with hkey
        · rfl
        · exact hep

/-- What is looked up for the request is of the kind that it is about, and the name of a new kernel is free. -/
def Answered (s : Server) : Request → Prop
  | .setupKernel name _ _ => s.kernelmap name = none
  | .getKernelInfo which =>
    ∀ k, keyOf s.kernelmap which = some k → (s.datamap k).isSome → s.kindAt k = some .kernelinfo
  | .getNodeInfo which => ∀ k, keyOf s.nodemap which = some k → (s.datamap k).isSome → s.kindAt k = some .nodeinfo
  | .getEndpointInfo _ k => (s.datamap k).isSome → s.kindAt k = some .endpointinfo
  | _ => True

variable {sender : String} {msgid : UInt32} {request : Request}

/-- Nothing has been sent, and the server is as open as it was. -/
def Quiet (s t : Server) : Prop := t.outbox = s.outbox ∧ t.shutdown = s.shutdown

private theorem quiet_withKernel (name hostname servname : String) :
    Quiet s (s.withKernel sender name hostname servname) := by
  have hinsert (key : Key) (info : Info) (s : Server) : Quiet s (insert key info s) := by
    unfold insert
    split_ifs
    · exact ⟨rfl, rfl⟩
    · exact ⟨rfl, rfl⟩
  exact hinsert (s.keycount + 1) (newKernel sender name hostname servname (s.keycount + 1))
    { s with keycount := s.keycount + 1 }

theorem quiet_withEndpointAt (key : Key) (d : Datum) (name : String) : Quiet s (s.withEndpointAt key d name) := by
  cases d with
  | none => exact ⟨rfl, rfl⟩
  | some info => exact ⟨rfl, rfl⟩

theorem quiet_asked (key : Key) : Quiet s (s.asked key) := by
  unfold asked
  split
  · exact ⟨rfl, rfl⟩
  · exact ⟨rfl, rfl⟩

theorem quiet_filled (key : Key) : Quiet s (s.filled key) := by
  unfold filled
  split_ifs
  · exact ⟨rfl, rfl⟩
  · exact ⟨rfl, rfl⟩

/-- The request has been handled with one reply, to its sender. -/
def Replies (sender : String) (msgid : UInt32) (request : Request) (s : Server) : Prop :=
  ∃ reply t, handle sender msgid request s = .ok () (replied sender msgid reply t) ∧ Quiet s t ∧ Typed t

/-- The request has been handled without a message. -/
def Silent (sender : String) (msgid : UInt32) (request : Request) (s : Server) : Prop :=
  Quiet s (final (handle sender msgid request s)) ∧ Typed (final (handle sender msgid request s))

/-- Under a key is nothing, or an object of this kind, or something else. -/
theorem lookup_cases (s : Server) (key : Key) (kind : Kind) : s.datamap key = none ∨
    (∃ info, s.datamap key = some (some info) ∧ info.type = some kind) ∨
      (s.datamap key).isSome ∧ s.kindAt key ≠ some kind := by
  cases hd : s.datamap key with
  | none => exact .inl rfl
  | some d =>
    by_cases hkind : s.kindAt key = some kind
    · rw [← hd]
      exact .inr (.inl (kindAt_eq.1 hkind))
    · exact .inr (.inr ⟨rfl, hkind⟩)

/-- The condition on a request that asks by a name or a key, once the key is known. -/
theorem forall_keyOf_iff {names : String → Option Key} {which : String ⊕ Key} {p : Key → Prop}
    (hkey : keyOf names which = some key) : (∀ k, keyOf names which = some k → p k) ↔ p key := by
  constructor
  · exact fun h => h key hkey
  · intro h k hk
    rw [hkey] at hk
    cases hk
    exact h

/-- A request is answered, or there is no answer at all. -/
theorem handle_cases (h : Typed s) (sender : String) (msgid : UInt32) (request : Request) :
    s.Answered request ∧ Replies sender msgid request s ∨ ¬ s.Answered request ∧ Silent sender msgid request s := by
  have hreply {request : Request} (reply : Reply)
      (hrun : handle sender msgid request s = .ok () (replied sender msgid reply s)) : Replies sender msgid request s :=
    ⟨reply, s, hrun, ⟨rfl, rfl⟩, h⟩
  have hsilent {request : Request} {t : Server} (hrun : handle sender msgid request s = .error (.assertion "type") t)
      (hquiet : Quiet s t) (ht : Typed t) : Silent sender msgid request s := by
    rw [Silent, hrun]
    exact ⟨hquiet, ht⟩
  -- a key that is not in the map is answered with a failure, whatever kind is asked for
  have hnone {key : Key} {kind : Kind} (hd : s.datamap key = none) (hsome : (s.datamap key).isSome) :
      s.kindAt key = some kind := by
    rw [hd] at hsome
    cases hsome
  cases request with
  | setupKernel name hostname servname =>
    by_cases hname : s.kernelmap name = none
    · exact .inl ⟨hname, _, _, setupKernel_run hname, quiet_withKernel name hostname servname, h.withKernel ..⟩
    · have hrun : handle sender msgid (.setupKernel name hostname servname) s = .ok () s :=
        setupKernel_taken (Option.isSome_iff_ne_none.2 hname)
      refine .inr ⟨hname, ?_⟩
      rw [Silent, hrun]
      exact ⟨⟨rfl, rfl⟩, h⟩
  | getKernelInfo which =>
    have hrun : handle sender msgid (.getKernelInfo which) s = getKernelInfo sender msgid (keyOf s.kernelmap which) s := rfl
    cases hkey : keyOf s.kernelmap which with
    | none =>
      rw [hkey] at hrun
      refine .inl ⟨fun k hk => ?_, hreply _ (hrun.trans (getKernelInfo_none rfl))⟩
      rw [hkey] at hk
      cases hk
    | some key =>
      rw [hkey] at hrun
      have hiff : s.Answered (.getKernelInfo which) ↔ ((s.datamap key).isSome → s.kindAt key = some .kernelinfo) :=
        forall_keyOf_iff hkey
      rw [hiff]
      rcases s.lookup_cases key .kernelinfo with hd | ⟨info, hd, htype⟩ | ⟨hsome, hkind⟩
      · exact .inl ⟨hnone hd, hreply _ (hrun.trans (getKernelInfo_none hd))⟩
      · exact .inl ⟨fun _ => kindAt_eq.2 ⟨info, hd, htype⟩, hreply _ (hrun.trans (getKernelInfo_run hd htype))⟩
      · exact .inr ⟨fun hanswered => hkind (hanswered hsome),
          hsilent (hrun.trans (getKernelInfo_error hsome hkind)) (quiet_asked key) (h.asked key)⟩
  | createNodeKey kernelkey name =>
    by_cases hname : s.nodemap name = none
    · exact .inl ⟨trivial, _, _, createNodeKey_run hname, ⟨rfl, rfl⟩, h.withNode kernelkey name⟩
    · exact .inl ⟨trivial, hreply _ (createNodeKey_taken (Option.isSome_iff_ne_none.2 hname))⟩
  | getNodeInfo which =>
    have hrun : handle sender msgid (.getNodeInfo which) s = getNodeInfo sender msgid (keyOf s.nodemap which) s := rfl
    cases hkey : keyOf s.nodemap which with
    | none =>
      rw [hkey] at hrun
      refine .inl ⟨fun k hk => ?_, hreply _ (hrun.trans (getNodeInfo_none rfl))⟩
      rw [hkey] at hk
      cases hk
    | some key =>
      rw [hkey] at hrun
      have hiff : s.Answered (.getNodeInfo which) ↔ ((s.datamap key).isSome → s.kindAt key = some .nodeinfo) :=
        forall_keyOf_iff hkey
      rw [hiff]
      rcases s.lookup_cases key .nodeinfo with hd | ⟨info, hd, htype⟩ | ⟨hsome, hkind⟩
      · exact .inl ⟨hnone hd, hreply _ (hrun.trans (getNodeInfo_none hd))⟩
      · exact .inl ⟨fun _ => kindAt_eq.2 ⟨info, hd, htype⟩, hreply _ (hrun.trans (getNodeInfo_run hd htype))⟩
      · exact .inr ⟨fun hanswered => hkind (hanswered hsome),
          hsilent (hrun.trans (getNodeInfo_error hsome hkind)) ⟨rfl, rfl⟩ h⟩
  | getNumNodeLive => exact .inl ⟨trivial, hreply _ rfl⟩
  | getCreateEndpointKey side nodekey name =>
    cases hd : s.datamap nodekey with
    | none => exact .inl ⟨trivial, hreply _ (getCreateEndpointKey_none hd)⟩
    | some d =>
      cases hep : endpoint d name with
      | none =>
        exact .inl ⟨trivial, _, _, getCreateEndpointKey_new hd hep, quiet_withEndpointAt nodekey d name,
          h.withEndpointAt hd name⟩
      | some epkey =>
        obtain ⟨info, hinfo, htype⟩ := kindAt_eq.1 (h.endpoints nodekey d name epkey hd hep)
        exact .inl ⟨trivial, hreply _ (getCreateEndpointKey_run hd hep hinfo htype)⟩
  | getEndpointInfo side key =>
    rcases s.lookup_cases key .endpointinfo with hd | ⟨info, hd, htype⟩ | ⟨hsome, hkind⟩
    · exact .inl ⟨hnone hd, hreply _ (getEndpointInfo_none hd)⟩
    · exact .inl ⟨fun _ => kindAt_eq.2 ⟨info, hd, htype⟩, hreply _ (getEndpointInfo_run hd htype)⟩
    · exact .inr ⟨fun hanswered => hkind (hanswered hsome),
        hsilent (getEndpointInfo_error hsome hkind) ⟨rfl, rfl⟩ h⟩

/-- What a message has made the server send is added to what it has sent. -/
def Adds (s t : Server) : Prop := ∃ more, t.outbox = s.outbox ++ more

private theorem Quiet.adds (h : Quiet s t) : Adds s t := ⟨[], by rw [h.1, List.append_nil]⟩

/-- Every message keeps the kinds in the table. -/
theorem dispatch_typed (h : Typed s) (sender : String) (msg : ClientMessage) :
    Typed (final (dispatchMessage sender msg s)) ∧ Adds s (final (dispatchMessage sender msg s)) := by
  have hsame (s : Server) : Adds s s := ⟨[], (List.append_nil _).symm⟩
  -- a signal marks a node, or the assertion on the kind fails
  have hsignal (mark : Info → Info)
      (hmark : ∀ info, (mark info).type = info.type ∧ (mark info).endpoints = info.endpoints)
      (s : Server) (h : Typed s) (key : Key) :
      Typed (final (signalNode mark key s)) ∧ Adds s (final (signalNode mark key s)) := by
    by_cases hkind : s.kindAt key = some .nodeinfo
    · obtain ⟨info, hd, htype⟩ := kindAt_eq.1 hkind
      rw [signalNode_run hd htype]
      exact ⟨(h.edit hd (hmark info).1 (hmark info).2).congr rfl rfl (le_refl _), _, rfl⟩
    · rw [signalNode_error hkind]
      exact ⟨h.filled key, (quiet_filled key).adds⟩
  have hkernel (live : Bool) (key : Key) :
      Typed (final (signalKernel live key s)) ∧ Adds s (final (signalKernel live key s)) := by
    by_cases hkind : s.kindAt key = some .kernelinfo
    · obtain ⟨info, hd, htype⟩ := kindAt_eq.1 hkind
      rw [signalKernel_run hd htype]
      have hlive : Typed (s.put key (some { info with live := some live })) := h.edit hd rfl rfl
      exact ⟨hlive.congr rfl rfl (le_refl _), _, rfl⟩
    · rw [signalKernel_error hkind]
      exact ⟨h.filled key, (quiet_filled key).adds⟩
  -- after the shutdown messages are dropped
  rcases Bool.eq_false_or_eq_true s.shutdown with hs | hs
  · have hrun : dispatchMessage sender msg s = .ok () s := by
      unfold dispatchMessage
      rw [bind_ok get_run, hs]
      rfl
    rw [hrun]
    exact ⟨h, hsame s⟩
  · unfold dispatchMessage
    rw [bind_ok get_run, hs]
    cases msg with
    | request msgid request =>
      rcases handle_cases h sender msgid request with ⟨-, reply, t, hrun, hquiet, ht⟩ | ⟨-, hquiet, ht⟩
      · change Typed (final (handle sender msgid request s)) ∧ Adds s (final (handle sender msgid request s))
        rw [hrun]
        exact ⟨ht.congr rfl rfl (le_refl _), _, congrArg (· ++ _) hquiet.1⟩
      · exact ⟨ht, hquiet.adds⟩
    | signalKernelStart key => exact hkernel true key
    | signalKernelEnd key => exact hkernel false key
    | signalNodeStart key =>
      exact hsignal Info.start (fun _ => ⟨rfl, rfl⟩) { s with numlivenodes := s.numlivenodes + 1 }
        (h.congr rfl rfl (le_refl _)) key
    | signalNodeEnd key =>
      exact hsignal Info.kill (fun _ => ⟨rfl, rfl⟩) { s with numlivenodes := s.numlivenodes - 1 }
        (h.congr rfl rfl (le_refl _)) key
    | connectEndpoints writerkey readerkey qname =>
      change Typed (final (connectEndpoints writerkey readerkey qname s)) ∧
        Adds s (final (connectEndpoints writerkey readerkey qname s))
      rw [connectEndpoints_run]
      exact ⟨h.withConnection writerkey readerkey qname, hsame _⟩
    | kernel kernelkey msg =>
      change Typed (final (routeKernelMessage kernelkey msg s)) ∧ Adds s (final (routeKernelMessage kernelkey msg s))
      unfold routeKernelMessage
      rw [bind_ok (datum_eq kernelkey s)]
      exact ⟨(h.filled kernelkey).congr rfl rfl (le_refl _), _, congrArg (· ++ _) (quiet_filled kernelkey).1⟩
    | terminate => exact ⟨h.congr rfl rfl (le_refl _), _, rfl⟩
    | log msg => exact ⟨h, hsame s⟩

/-- The dispatch of a request answers it, to its sender and to nobody else, or sends nothing. -/
theorem dispatch_request (h : Typed s) (hs : s.shutdown = false) (sender : String) (msgid : UInt32) (request : Request) :
    s.Answered request ∧ (∃ reply, (final (dispatchMessage sender (.request msgid request) s)).outbox =
        s.outbox ++ [(.client sender, .reply msgid reply)]) ∨
      ¬ s.Answered request ∧ (final (dispatchMessage sender (.request msgid request) s)).outbox = s.outbox := by
  have hrun : dispatchMessage sender (.request msgid request) s = handle sender msgid request s := by
    unfold dispatchMessage
    rw [bind_ok get_run, hs]
    rfl
  rw [hrun]
  rcases handle_cases h sender msgid request with ⟨hanswered, reply, t, hrun, hquiet, -⟩ | ⟨hanswered, hquiet, -⟩
  · rw [hrun]
    exact .inl ⟨hanswered, reply, congrArg (· ++ _) hquiet.1⟩
  · exact .inr ⟨hanswered, hquiet.1⟩

end Table

end Server

end ProcessNetwork.RemoteContext
