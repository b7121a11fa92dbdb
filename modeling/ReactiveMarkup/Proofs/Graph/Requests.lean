import Mathlib.Data.List.Perm.Basic
import Mathlib.Data.List.Range
import ReactiveMarkup.Proofs.Basic
import ReactiveMarkup.Proofs.Graph.Aloof
import ReactiveMarkup.Proofs.Graph.Operation

/-!
# The account of requests

Requests are numbered in the order in which they are sent out. Whatever a graph does, it only sends
out further ones; answers are taken one at a time, by operations from outside. So each request that
was sent out waits for its answer or has had it, and never both.

Main definitions: `Graph.Booked`, `Operation.accepted`, `acceptedBy`, `Graph.Accounted`.
Main results: `Graph.booked_regimen`, `Graph.operation_cases`, `Graph.Accounted.operation`,
`Graph.run_requests`.
-/
namespace ReactiveMarkup

namespace Graph

variable {α : Type} {g₀ g g' : Graph}

/-! ## Sending out -/

/-- Numbers from `n` on. -/
def numbered (n : Nat) (xs : List α) : List (Nat × α) := (List.range' n xs.length).zip xs

theorem numbered_append (n : Nat) (xs ys : List α) :
    numbered n (xs ++ ys) = numbered n xs ++ numbered (n + xs.length) ys := by
  rw [numbered, numbered, numbered, List.length_append, ← List.range'_append_1,
    List.zip_append (by simp)]

theorem map_fst_numbered (n : Nat) (xs : List α) :
    (numbered n xs).map (·.1) = List.range' n xs.length := by
  rw [numbered, List.map_fst_zip]
  simp

/-- A request as the host gets it. -/
def handedOver (r : RequestId × PendingRequest) : RequestId × Request := (r.1, r.2.request)

/-- A graph after `sent` was sent out, in this order, and no answer was taken. -/
structure SentOut (sent : List PendingRequest) (g g' : Graph) : Prop where
  requests : g'.requests = g.requests ++ numbered g.issued sent
  outbox : g'.host.outbox = g.host.outbox ++ (numbered g.issued sent).map handedOver
  issued : g'.issued = g.issued + sent.length
  settled : g'.settled = g.settled

/-- A graph after some requests were sent out, and no answer was taken. -/
def Booked (g g' : Graph) : Prop := ∃ sent, SentOut sent g g'

namespace Booked

theorem refl (g : Graph) : Booked g g := ⟨[], by simp [numbered], by simp [numbered], rfl, rfl⟩

theorem of_eq (h : Booked g₀ g) (hrequests : g'.requests = g.requests)
    (houtbox : g'.host.outbox = g.host.outbox) (hissued : g'.issued = g.issued)
    (hsettled : g'.settled = g.settled) : Booked g₀ g' := by
  obtain ⟨sent, hs⟩ := h
  exact ⟨sent, hrequests.trans hs.requests, houtbox.trans hs.outbox, hissued.trans hs.issued,
    hsettled.trans hs.settled⟩

theorem send (h : Booked g₀ g) (request : Request) (target : ValueId) (echo : Option NodeId) :
    Booked g₀ ((Graph.send request target echo).run g).2 := by
  obtain ⟨sent, hs⟩ := h
  have hone : numbered g.issued [(⟨request, target, echo⟩ : PendingRequest)] =
      [(g.issued, ⟨request, target, echo⟩)] := rfl
  refine ⟨sent ++ [⟨request, target, echo⟩], ?_, ?_, ?_, hs.settled⟩
  · rw [numbered_append, ← hs.issued, hone, ← List.append_assoc, ← hs.requests]
    rfl
  · rw [numbered_append, ← hs.issued, hone, List.map_append, ← List.append_assoc, ← hs.outbox]
    rfl
  · rw [List.length_append, ← Nat.add_assoc, ← hs.issued]
    rfl

theorem secluded (g₀ : Graph) : Secluded (Booked g₀) :=
  .of_any fun h hinward => h.of_eq hinward.requests hinward.outbox hinward.issued hinward.settled

end Booked

/-- Every kind of step of reading and assigning only sends out requests. -/
theorem booked_regimen (g₀ : Graph) :
    Regimen (ι := Unit) id (fun _ => True) fun _ => Booked g₀ :=
  Upheld.regimen (fun _ => (Booked.secluded g₀).toUpheld) (fun h => h.of_eq rfl rfl rfl rfl)
    (fun h => h.of_eq rfl rfl rfl rfl) (fun h _ => h.of_eq rfl rfl rfl rfl)
    (fun h _ => h.of_eq rfl rfl rfl rfl) (fun _ h => h.of_eq rfl rfl rfl rfl)
    fun request target echo h => h.send request target echo

theorem booked_reentry_agree (g₀ g : Graph) :
    Reentry.Agree (Booked g₀) g.reentry g.reentry :=
  (booked_regimen g₀).reentry_agree
    ⟨fun h => h.of_eq rfl rfl rfl rfl, fun h => h.of_eq rfl rfl rfl rfl⟩ _ ()

/-- Operations that complete no request only send out requests. -/
theorem booked_operation {op : Operation} (hop : ∀ id outcome, op ≠ .complete id outcome) (g : Graph) :
    Booked g (op.run.run g).2 := by
  have hbegin {g' : Graph} (h : Booked g g') : Booked g { g' with cycle := g'.cycle + 1 } :=
    h.of_eq rfl rfl rfl rfl
  have hentry : ∀ (_ : Unit) g', Booked g g' → ∀ _ : Unit,
      Reentry.Agree (Booked g) g'.reentry g'.reentry := fun _ g' _ _ => booked_reentry_agree g g'
  have hmount : Agree (Booked g) mount mount :=
    (booked_regimen g).mountWith_agree (fun i g' hg j => hentry i g' hg j) (i := ()) hbegin
      fun hg _ _ => (Booked.secluded g).built hg _ _
  have hagree := (booked_regimen g).operation_agree hentry (i := ()) hbegin
    (Booked.secluded g).linked_keeps (fun _ => hmount) fun id outcome h => absurd h (hop id outcome)
  exact hagree.keeps g (.refl g)

/-! ## Answers -/

/-- A graph that no longer waits for the answer to a request. -/
def withoutRequest (g : Graph) (id : RequestId) : Graph :=
  { g with requests := g.requests.filter fun r => r.1 != id }

/-- A graph in which the outcome of a request has got to its target. -/
def delivered (g : Graph) (pending : PendingRequest) (outcome : Except RequestError Response) : Graph :=
  let g := ((keepEcho pending.echo outcome).run g).2
  ((deliver g.reentry.assign pending.target pending.request.url outcome).run g).2

/-- Completing a request that is not pending does nothing. The outcome of one that is pending gets to
its target; then it is seen whether any other is left. -/
theorem run_complete (id : RequestId) (outcome : Except RequestError Response) (g : Graph) :
    (complete id outcome).run g =
      match g.requests.lookup id with
      | none => (false, g)
      | some pending => (true, (settle.run ((g.withoutRequest id).delivered pending outcome)).2) := by
  rw [complete, completeWith, run_get_bind]
  cases g.requests.lookup id <;> rfl

theorem run_settle (g : Graph) :
    (settle.run g).2 = if g.requests.isEmpty then { g with settled := g.settled + 1 } else g := rfl

theorem settled_settle (g : Graph) :
    (settle.run g).2.settled = g.settled + if (settle.run g).2.requests = [] then 1 else 0 := by
  rw [run_settle]
  cases h : g.requests <;> simp [h]

/-- Keeping a response in the markup changes the document, or is reported. -/
theorem Keeps.keepEcho {I : Graph → Prop}
    (h : ∀ {g : Graph} document diagnostics, I g →
      I { g with host := { g.host with document }, diagnostics })
    (echo : Option NodeId) (outcome : Except RequestError Response) :
    Keeps I (Graph.keepEcho echo outcome) := by
  have htell (node : NodeId) (body : String) :
      Keeps I (Graph.tell (·.setAttribute node Marker.echo body)).run :=
    .tell (fun {g} d hg => h d g.diagnostics hg) .setAttribute _
  unfold Graph.keepEcho
  split
  · split
    · refine (htell _ _).bind fun result => ?_
      split
      · exact .modify fun g hg => h g.host.document _ hg
      · exact .pure _
    · exact .pure _
  · exact .pure _

/-- While an outcome gets to its target, further requests may be sent out. -/
theorem booked_delivered (g : Graph) (pending : PendingRequest)
    (outcome : Except RequestError Response) : Booked g (g.delivered pending outcome) := by
  have hecho : Keeps (Booked g) (keepEcho pending.echo outcome) :=
    .keepEcho (fun _ _ h => h.of_eq rfl rfl rfl rfl) _ _
  unfold delivered
  exact ((booked_regimen g).deliver_agree () (booked_reentry_agree g _).assign _ _ _).keeps _
    (hecho g (.refl g))

/-- An outcome whose target is gone gets to no value. -/
theorem delivered_values {pending : PendingRequest} (hgone : g.values.contains pending.target = false)
    (outcome : Except RequestError Response) : (g.delivered pending outcome).values = g.values := by
  let I (g' : Graph) : Prop := g'.values = g.values
  have hecho : Keeps I (keepEcho pending.echo outcome) := .keepEcho (fun _ _ h => h) _ _
  have hfinish (assign : ValueId → Value → GraphM Unit) (v : Value) : Keeps I (do
      if (← get).values.contains pending.target then assign pending.target v) := by
    refine .get_bind fun g' hg' => ?_
    have hgone' : g'.values.contains pending.target = false := by
      rw [show g'.values = g.values from hg', hgone]
    rw [hgone']
    exact hg'
  have hdeliver (assign : ValueId → Value → GraphM Unit) :
      Keeps I (deliver assign pending.target pending.request.url outcome) := by
    unfold deliver
    refine .look fun g' => ?_
    split
    · exact Keeps.bind (m := modify _) (.modify fun _ h => h) fun _ => hfinish assign _
    · refine .look fun g'' => Keeps.bind (m := modify _) (.modify fun _ h => h) fun _ => ?_
      exact Keeps.bind (m := report _) (.modify fun _ h => h) fun _ => hfinish assign _
  exact hdeliver _ _ (hecho g rfl)

end Graph

/-! ## The account -/

/-- The requests that an operation completes: at most the one that it names, if that was pending. -/
def Operation.accepted (g : Graph) : Operation → List RequestId
  | complete id outcome => if ((Graph.complete id outcome).run g).1 then [id] else []
  | _ => []

/-- The requests that operations complete one after the other. -/
def acceptedBy : List Operation → Graph → List RequestId
  | [], _ => []
  | op :: ops, g => op.accepted g ++ acceptedBy ops (op.run.run g).2

namespace Graph

variable {host : Host} {accepted : List RequestId} {g g' : Graph}

/-- An operation takes no answer and only sends out requests, or it takes the answer to one that waits,
and then sees whether any is left. -/
theorem operation_cases (op : Operation) (g : Graph) :
    (op.accepted g = [] ∧ Booked g (op.run.run g).2) ∨
      ∃ id g', op.accepted g = [id] ∧ id ∈ g.requests.map (·.1) ∧ Booked (g.withoutRequest id) g' ∧
        (op.run.run g).2 = (settle.run g').2 := by
  cases op with
  | complete id outcome =>
    have hrun : ((Operation.complete id outcome).run.run g).2 = ((complete id outcome).run g).2 := rfl
    rw [hrun, Operation.accepted, run_complete]
    cases hpending : g.requests.lookup id with
    | none => exact .inl ⟨if_neg Bool.false_ne_true, .refl g⟩
    | some pending =>
      have hid : id ∈ g.requests.map (·.1) := List.mem_map_of_mem (Keyed.mem_of_lookup hpending)
      exact .inr ⟨id, _, if_pos rfl, hid, booked_delivered _ pending outcome, rfl⟩
  | _ => exact .inl ⟨rfl, booked_operation (fun _ _ h => by cases h) g⟩

/-- The requests of a graph that began with a host, and has taken the answers to some. -/
structure Accounted (host : Host) (accepted : List RequestId) (g : Graph) : Prop where
  /-- what was sent out waits for its answer or has had it, and never both -/
  partition : (g.requests.map (·.1) ++ accepted).Perm (List.range g.issued)
  /-- each was handed over to the host once, in the order of the numbers, as it is remembered -/
  outbox : ∃ sent : List (RequestId × Request), g.host.outbox = host.outbox ++ sent ∧
    sent.map (·.1) = List.range g.issued ∧ ∀ r ∈ g.requests, handedOver r ∈ sent

namespace Accounted

theorem nodup (h : Accounted host accepted g) : (g.requests.map (·.1) ++ accepted).Nodup :=
  h.partition.nodup_iff.2 List.nodup_range

theorem length (h : Accounted host accepted g) :
    g.requests.length + accepted.length = g.issued := by
  simpa using h.partition.length_eq

/-- The requests that wait are those that were sent out and not answered. -/
theorem mem_iff (h : Accounted host accepted g) (id : RequestId) :
    id ∈ g.requests.map (·.1) ↔ id < g.issued ∧ id ∉ accepted := by
  have hmem : id ∈ g.requests.map (·.1) ++ accepted ↔ id < g.issued := by
    rw [h.partition.mem_iff, List.mem_range]
  rw [List.mem_append] at hmem
  constructor
  · intro hid
    exact ⟨hmem.1 (.inl hid), fun ha => (List.nodup_append.1 h.nodup).2.2 id hid id ha rfl⟩
  · rintro ⟨hlt, ha⟩
    exact (hmem.2 hlt).resolve_right ha

/-- Sending out requests. -/
theorem booked (h : Accounted host accepted g) (hb : Booked g g') : Accounted host accepted g' := by
  obtain ⟨new, hnew⟩ := hb
  have hrange : List.range g'.issued = List.range g.issued ++ List.range' g.issued new.length := by
    rw [hnew.issued, List.range_eq_range', List.range_eq_range', ← List.range'_append_1, Nat.zero_add]
  refine ⟨?_, ?_⟩
  · rw [hnew.requests, List.map_append, map_fst_numbered, hrange, List.append_assoc]
    have hswap : (List.range' g.issued new.length ++ accepted).Perm
        (accepted ++ List.range' g.issued new.length) := List.perm_append_comm
    refine (hswap.append_left _).trans ?_
    rw [← List.append_assoc]
    exact h.partition.append_right _
  · obtain ⟨sent, hout, hids, hkept⟩ := h.outbox
    refine ⟨sent ++ (numbered g.issued new).map handedOver, ?_, ?_, fun r hr => ?_⟩
    · rw [hnew.outbox, hout, List.append_assoc]
    · have hfst : ((numbered g.issued new).map handedOver).map (·.1) =
          (numbered g.issued new).map (·.1) := by simp [handedOver]
      rw [List.map_append, hids, hfst, map_fst_numbered, hrange]
    · rw [hnew.requests] at hr
      rcases List.mem_append.1 hr with hr | hr
      · exact List.mem_append_left _ (hkept r hr)
      · exact List.mem_append_right _ (List.mem_map_of_mem hr)

/-- Taking the answer to a request. -/
theorem answered (h : Accounted host accepted g) {id : RequestId} (hid : id ∈ g.requests.map (·.1)) :
    Accounted host (accepted ++ [id]) (g.withoutRequest id) := by
  refine ⟨?_, ?_⟩
  · have hkeys : (g.withoutRequest id).requests.map (·.1) = (g.requests.map (·.1)).erase id := by
      rw [(List.nodup_append.1 h.nodup).1.erase_eq_filter, List.filter_map]
      rfl
    have hfront : ((g.requests.map (·.1)).erase id ++ (accepted ++ [id])).Perm
        (id :: ((g.requests.map (·.1)).erase id ++ accepted)) := by
      rw [← List.append_assoc]
      exact List.perm_append_singleton ..
    rw [hkeys]
    refine hfront.trans (.trans ?_ h.partition)
    exact (List.perm_cons_erase hid).symm.append_right accepted
  · obtain ⟨sent, hout, hids, hkept⟩ := h.outbox
    exact ⟨sent, hout, hids, fun r hr => hkept r (List.mem_filter.1 hr).1⟩

theorem settle (h : Accounted host accepted g) : Accounted host accepted (Graph.settle.run g).2 := by
  rw [run_settle]
  split
  · exact ⟨h.partition, h.outbox⟩
  · exact h

theorem operation (h : Accounted host accepted g) (op : Operation) :
    Accounted host (accepted ++ op.accepted g) (op.run.run g).2 := by
  rcases operation_cases op g with ⟨hnone, hbooked⟩ | ⟨id, g', hone, hid, hbooked, hrun⟩
  · rw [hnone, List.append_nil]
    exact h.booked hbooked
  · rw [hone, hrun]
    exact ((h.answered hid).booked hbooked).settle

theorem operations (ops : List Operation) (h : Accounted host accepted g) :
    Accounted host (accepted ++ acceptedBy ops g) ((ops.forM Operation.run).run g).2 := by
  induction ops generalizing accepted g with
  | nil =>
    rw [acceptedBy, List.append_nil]
    exact h
  | cons op ops ih =>
    have hrest := ih (h.operation op)
    rw [List.append_assoc] at hrest
    exact hrest

end Accounted

/-- It is noted that no request is pending whenever an answer was taken and, with the requests that
were sent out meanwhile, none is. -/
theorem settled_operation (op : Operation) (g : Graph) :
    let g' := (op.run.run g).2
    g'.settled = g.settled + if op.accepted g ≠ [] ∧ g'.requests = [] then 1 else 0 := by
  dsimp only
  rcases operation_cases op g with ⟨hnone, sent, hsent⟩ | ⟨id, g', hone, -, ⟨sent, hsent⟩, hrun⟩
  · rw [hnone, hsent.settled]
    simp
  · have hsettled : g'.settled = g.settled := hsent.settled
    rw [hone, hrun, settled_settle, hsettled]
    simp

/-- What completing a request does when the requests are accounted for. -/
structure Completes (id : RequestId) (outcome : Except RequestError Response)
    (accepted : List RequestId) (g : Graph) : Prop where
  /-- it is told apart whether the request was sent out and has no answer yet -/
  accepted_iff : ((complete id outcome).run g).1 = true ↔ id < g.issued ∧ id ∉ accepted
  /-- an answer that nothing waits for changes nothing -/
  refused : ((complete id outcome).run g).1 = false → ((complete id outcome).run g).2 = g
  /-- an answer whose target is gone changes no value -/
  stray : ∀ pending, g.requests.lookup id = some pending →
    g.values.contains pending.target = false → ((complete id outcome).run g).2.values = g.values

theorem Accounted.completes (h : Accounted host accepted g) (id : RequestId)
    (outcome : Except RequestError Response) : Completes id outcome accepted g where
  accepted_iff := by
    rw [← h.mem_iff, run_complete]
    cases hpending : g.requests.lookup id with
    | none =>
      have hnot : id ∉ g.requests.map (·.1) := by
        intro hid
        obtain ⟨r, hr, rfl⟩ := List.mem_map.1 hid
        simpa using List.lookup_eq_none_iff.1 hpending r hr
      simp [hnot]
    | some pending =>
      have hid : id ∈ g.requests.map (·.1) := List.mem_map_of_mem (Keyed.mem_of_lookup hpending)
      simp [hid]
  refused := by
    rw [run_complete]
    cases g.requests.lookup id with
    | none => exact fun _ => rfl
    | some pending => exact fun h => by cases h
  stray pending hpending hgone := by
    have hvalues (g : Graph) : (Graph.settle.run g).2.values = g.values := by
      rw [run_settle]
      split <;> rfl
    rw [run_complete, hpending]
    dsimp only
    rw [hvalues]
    exact delivered_values (g := g.withoutRequest id) hgone outcome

/-- Take any program, settings and host, and any operations one after the other, among them
completions of requests in any order, repeated or of requests that were never sent out. Afterwards
each request that was sent out was handed over to the host once, and waits for its answer or has had
it. A completion is accepted if and only if the request was sent out and none was accepted before; any
other changes nothing, and one whose target is gone changes no value. A further operation finds that
nothing is pending just when it is a completion that is accepted and, with what was sent out in its
course, no request is left. -/
theorem run_requests (program : Program) (options : GraphOptions) (host : Host)
    (operations : List Operation) :
    let g₀ := ofProgram program options host
    let g := ((operations.forM Operation.run).run g₀).2
    let accepted := acceptedBy operations g₀
    Accounted host accepted g ∧ g.requests.length + accepted.length = g.issued ∧
      (∀ id outcome, Completes id outcome accepted g) ∧
      ∀ op : Operation, (op.run.run g).2.settled =
        g.settled + if op.accepted g ≠ [] ∧ (op.run.run g).2.requests = [] then 1 else 0 := by
  intro g₀ g accepted
  have hfirst : Accounted host [] g₀ := ⟨by simp [g₀, ofProgram], [], by simp [g₀, ofProgram]⟩
  have h : Accounted host accepted g := hfirst.operations operations
  exact ⟨h, h.length, fun id outcome => h.completes id outcome, fun op => settled_operation op g⟩

end Graph

end ReactiveMarkup
