import MatchTrader.ProxyExchange

/-! What the proxy does with a request, one event after the other, and what its journals and both its peers see while any number
of requests are handled at once. -/

namespace MatchTrader

open Durable Numeral

namespace Proxy

section Events

/-- The answers that may be given. -/
abbrev Answers := (q : ProxyQuery) → ProxyReply q → Prop

/-- The body and the fields of a request, from a stream that arrived. -/
def Taken (A : Answers) (r : ProxyRequest) (body : List UInt8) (fields : List Field) : Prop :=
  ∃ stream, A .arrive (.ok stream) ∧ readRequest r stream = .ok (body, fields)

def requestRecord (r : ProxyRequest) (cycle ts : String) (body : List UInt8) (fields : List Field) : ProxyRecord :=
  .request cycle ts r.command.text r.path (loggedHeaders fields) body.length (Base64.encode body)

def responseRecord (r : ProxyRequest) (cycle ts : String) (response : ProxyResponse) (ms : Decimal) : ProxyRecord :=
  .response cycle ts "TradingBox" r.command.text r.path response.status response.reason (loggedHeaders response.headers) ms
    response.body.length (Base64.encode response.body)

def localRecord (r : ProxyRequest) (cycle ts : String) (a : ProxyAnswer) (ms : Decimal) : ProxyRecord :=
  .response cycle ts "x.0.1" r.command.text r.path a.status a.reason (localFields a.body) ms a.body.length (Base64.encode a.body)

def ProxyEvent.concludes : ProxyEvent → Bool
  | .refused .. | .answered .. => true
  | _ => false

def ProxyEvent.receives : ProxyEvent → Bool
  | .received .. => true
  | _ => false

/-- What may happen next to a request, after what has happened to it. -/
inductive Next (A : Answers) (server : ProxyServer) (r : ProxyRequest) : List ProxyEvent → ProxyEvent → Prop
  | unrecorded {cycle message : String} {status : Nat} : Next A server r [] (.refused cycle status message)
  | request {cycle ts : String} {body : List UInt8} {fields : List Field} (hid : A .uuid cycle) (ht : Taken A r body fields) :
    Next A server r [] (.recorded (requestRecord r cycle ts body fields))
  | contacted {cycle ts : String} {body head : List UInt8} {fields : List Field} (hf : server.forward = true) (ht : Taken A r body fields)
    (hh : Http.requestHead r.command.text r.path (forwardedFields server.netloc r.headers fields body) = .ok head) :
    Next A server r [.recorded (requestRecord r cycle ts body fields)] (.contacted cycle (head ++ body))
  | received {q : ProxyEvent} {cycle : String} {sent : List UInt8} {response : ProxyResponse} (ha : A (.exchange sent) (.ok response)) :
    Next A server r [q, .contacted cycle sent] (.received cycle response)
  | failed {pre : List ProxyEvent} {cycle ts error : String} {ms : Decimal} (hne : pre ≠ []) :
    Next A server r pre (.recorded (.failure cycle ts error ms))
  | unavailable {pre : List ProxyEvent} {cycle message : String} {status : Nat} (hf : server.forward = true)
    (hq : ∀ e ∈ pre, e.concludes = false) (hr : ∀ e ∈ pre, e.receives = false) :
    Next A server r pre (.refused cycle status message)
  | response {q : ProxyEvent} {cycle ts : String} {sent : List UInt8} {response : ProxyResponse} {ms : Decimal} :
    Next A server r [q, .contacted cycle sent, .received cycle response] (.recorded (responseRecord r cycle ts response ms))
  | answered {q : ProxyEvent} {post : List ProxyEvent} {cycle : String} {sent : List UInt8} {response : ProxyResponse}
    (hq : ∀ e ∈ q :: .contacted cycle sent :: .received cycle response :: post, e.concludes = false) :
    Next A server r (q :: .contacted cycle sent :: .received cycle response :: post) (.answered cycle (answerOf r.command response))
  | delivery {pre : List ProxyEvent} {cycle ts error : String} (hne : pre ≠ []) : Next A server r pre (.recorded (.delivery cycle ts error))
  | delivered {q : ProxyEvent} {cycle : String} {body : List UInt8} (hl : server.forward = false) :
    Next A server r [q] (.delivered cycle body)
  | localResponse {pre : List ProxyEvent} {cycle ts : String} {a : ProxyAnswer} {ms : Decimal} (hl : server.forward = false) (hne : pre ≠ []) :
    Next A server r pre (.recorded (localRecord r cycle ts a ms))
  | localAnswered {pre : List ProxyEvent} {cycle : String} {a : ProxyAnswer} (hl : server.forward = false)
    (hq : ∀ e ∈ pre, e.concludes = false) : Next A server r pre (.answered cycle a)

end Events

section Handling

variable {A : Answers} {server : ProxyServer} {r : ProxyRequest} {α : Type} {p : ProxyAct α} {P : α → List ProxyEvent → Prop}
  {E : Exc → List ProxyEvent → Prop} {s : List ProxyEvent} {cycle ts : String} {e : ProxyEvent}

/-- One event more, which may happen next. -/
def Grows (A : Answers) (server : ProxyServer) (r : ProxyRequest) (s t : List ProxyEvent) : Prop := ∃ e, t = s ++ [e] ∧ Next A server r s e

theorem wp_emit {P : Unit → List ProxyEvent → Prop} (hn : Next A server r s e) (hP : P () (s ++ [e])) :
    (emit e).wp A (Grows A server r) P E s := ⟨⟨e, rfl, hn⟩, hP⟩

theorem wp_call {q : ProxyAct (Except Exc α)} (h : q.wp A (Grows A server r)
    (fun x t => (∀ a, x = .ok a → P a t) ∧ ∀ e, x = .error e → E e t) E s) : (call q).wp A (Grows A server r) P E s :=
  (Prog.wp_bind _ _).mpr (Prog.wp_consequence h (fun x _ ht => (Prog.wp_ofExcept x).mpr ht) fun _ _ => id)

theorem wp_rescue {F : Exc → List ProxyEvent → Prop} {catches : Exc → Bool} {h : Exc → ProxyAct α} (hp : p.wp A (Grows A server r) P F s)
    (hh : ∀ e t, F e t → (h e).wp A (Grows A server r) P E t) (hE : ∀ e t, F e t → E e t) :
    (rescue p catches h).wp A (Grows A server r) P E s := by
  refine (Prog.wp_tryCatch _ _).mpr (Prog.wp_consequence hp (fun _ _ => id) fun e t ht => ?_)
  split
  · exact hh e t ht
  · exact hE e t ht

theorem wp_record {x : ProxyRecord} {P : Unit → List ProxyEvent → Prop} (hn : Next A server r s (.recorded x))
    (hP : P () (s ++ [.recorded x])) (hE : ∀ e, E e s) : (record x).wp A (Grows A server r) P E s := by
  refine (Prog.wp_bind _ _).mpr (wp_call ?_)
  rintro x -
  exact ⟨fun _ _ => wp_emit hn hP, fun e _ => hE e⟩

/-- A record that may fail without consequence. -/
theorem wp_tryRecord {x : ProxyRecord} {P : Unit → List ProxyEvent → Prop} (hn : Next A server r s (.recorded x))
    (hP : P () (s ++ [.recorded x])) (hs : P () s) (hE : ∀ e, E e s) :
    (rescue (record x) isOsError fun _ => pure ()).wp A (Grows A server r) P E s :=
  wp_rescue (F := fun _ t => t = s) (wp_record hn hP fun _ => rfl) (by rintro e _ rfl; exact hs) (by rintro e _ rfl; exact hE e)

theorem wp_refuse {P : Unit → List ProxyEvent → Prop} {status : Nat} {message : String} (hn : Next A server r s (.refused cycle status message))
    (hP : P () (s ++ [.refused cycle status message])) (hE : ∀ e, E e (s ++ [.refused cycle status message])) :
    (refuse cycle status message).wp A (Grows A server r) P E s := by
  refine (Prog.wp_bind _ _).mpr (wp_emit hn (wp_call ?_))
  rintro x -
  exact ⟨fun _ _ => hP, fun e _ => hE e⟩

theorem takeRequest_wp (hid : A .uuid cycle) : (takeRequest r cycle ts).wp A (Grows A server r)
    (fun x t => t = [.recorded (requestRecord r cycle ts x.1 x.2)] ∧ Taken A r x.1 x.2) (fun _ t => t = []) [] := by
  refine (Prog.wp_bind _ _).mpr ?_
  unfold raiseIf
  split
  · rfl
  refine (Prog.wp_bind _ _).mpr (wp_call ?_)
  rintro x hx
  refine ⟨fun stream hs => ?_, fun _ _ => rfl⟩
  subst hs
  refine (Prog.wp_bind _ _).mpr ((Prog.wp_ofExcept _).mpr ⟨fun taken ht => ?_, fun _ _ => rfl⟩)
  have hk : Taken A r taken.1 taken.2 := ⟨stream, hx, ht⟩
  exact (Prog.wp_bind _ _).mpr (wp_record (.request hid hk) ⟨rfl, hk⟩ fun _ => rfl)

section Forward

variable {body : List UInt8} {fields : List Field} {q : ProxyEvent}

theorem passOn_wp (hf : server.forward = true) (ht : Taken A r body fields) (hq : q = .recorded (requestRecord r cycle ts body fields)) :
    (passOn server r cycle body fields).wp A (Grows A server r)
      (fun x t => ∃ sent ts ms, t = [q, .contacted cycle sent, .received cycle x.1] ∧ x.2 = responseRecord r cycle ts x.1 ms)
      (fun _ t => t = [q] ∨ ∃ sent, t = [q, .contacted cycle sent]) [q] := by
  subst hq
  refine (Prog.wp_bind _ _).mpr (wp_call ?_)
  rintro x -
  refine ⟨fun _ _ => ?_, fun _ _ => Or.inl rfl⟩
  refine (Prog.wp_bind _ _).mpr ((Prog.wp_ofExcept _).mpr ⟨fun head hh => ?_, fun _ _ => Or.inl rfl⟩)
  refine (Prog.wp_bind _ _).mpr (wp_emit (.contacted hf ht hh) ((Prog.wp_bind _ _).mpr (wp_call ?_)))
  rintro x hx
  refine ⟨fun response hr => ?_, fun _ _ => Or.inr ⟨_, rfl⟩⟩
  subst hr
  refine (Prog.wp_bind _ _).mpr (wp_emit (.received hx) ?_)
  refine (Prog.wp_bind _ _).mpr fun ts _ => (Prog.wp_bind _ _).mpr fun ms _ => ?_
  exact ⟨_, ts, ms, rfl, rfl⟩

theorem unavailable_wp {e : Exc} (hf : server.forward = true) (hs : s = [q] ∨ ∃ sent, s = [q, .contacted cycle sent])
    (hq : q.concludes = false) (hr : q.receives = false) :
    (unavailable cycle e).wp A (Grows A server r) (fun _ _ => True) (fun _ _ => True) s := by
  have hne : s ≠ [] := by
    rintro rfl
    obtain h | ⟨_, h⟩ := hs <;> cases h
  have hquiet : ∀ e ∈ s, e.concludes = false ∧ e.receives = false := by
    obtain rfl | ⟨sent, rfl⟩ := hs
    · exact List.forall_mem_singleton.mpr ⟨hq, hr⟩
    · exact List.forall_mem_cons.mpr ⟨⟨hq, hr⟩, List.forall_mem_singleton.mpr ⟨rfl, rfl⟩⟩
  have hrefuse {t : List ProxyEvent} (ht : ∀ e ∈ t, e.concludes = false ∧ e.receives = false) :
      (refuse cycle 502 "Upstream exchange unavailable").wp A (Grows A server r) (fun _ _ => True) (fun _ _ => True) t :=
    wp_refuse (.unavailable hf (fun e he => (ht e he).1) fun e he => (ht e he).2) trivial fun _ => trivial
  refine (Prog.wp_bind _ _).mpr fun ts _ => (Prog.wp_bind _ _).mpr fun ms _ => (Prog.wp_bind _ _).mpr ?_
  refine wp_tryRecord (.failed hne) (hrefuse fun e he => ?_) (hrefuse hquiet) fun _ => trivial
  rcases List.mem_append.mp he with he | he
  · exact hquiet e he
  · obtain rfl := List.mem_singleton.mp he
    exact ⟨rfl, rfl⟩

theorem conclude_wp {sent : List UInt8} {response : ProxyResponse} {x : ProxyRecord} {ms : Decimal} (hq : q.concludes = false)
    (hx : x = responseRecord r cycle ts response ms) : (conclude cycle r.command response x).wp A (Grows A server r)
      (fun _ _ => True) (fun _ _ => True) [q, .contacted cycle sent, .received cycle response] := by
  subst hx
  have hback {post : List ProxyEvent} (hp : ∀ e ∈ post, e.concludes = false) :
      (rescue (passBack cycle r.command response) isOsError fun _ => deliveryFailed cycle).wp A (Grows A server r)
        (fun _ _ => True) (fun _ _ => True) (q :: .contacted cycle sent :: .received cycle response :: post) := by
    have hquiet : ∀ e ∈ q :: .contacted cycle sent :: .received cycle response :: post, e.concludes = false :=
      List.forall_mem_cons.mpr ⟨hq, List.forall_mem_cons.mpr ⟨rfl, List.forall_mem_cons.mpr ⟨rfl, hp⟩⟩⟩
    refine wp_rescue (F := fun _ t => t ≠ []) ?_ ?_ fun _ _ _ => trivial
    · have hne {e : ProxyEvent} : q :: .contacted cycle sent :: .received cycle response :: post ++ [e] ≠ [] := List.cons_ne_nil _ _
      refine (Prog.wp_bind _ _).mpr (wp_emit (.answered hquiet) ((Prog.wp_bind _ _).mpr (wp_call ?_)))
      rintro x -
      refine ⟨fun _ _ => wp_call ?_, fun _ _ => hne⟩
      rintro y -
      exact ⟨fun _ _ => trivial, fun _ _ => hne⟩
    · intro e t hne
      exact (Prog.wp_bind _ _).mpr fun ts _ => wp_record (.delivery hne) trivial fun _ => trivial
  refine (Prog.wp_bind _ _).mpr (wp_tryRecord .response ?_ (hback (List.forall_mem_nil _)) fun _ => trivial)
  exact hback (List.forall_mem_singleton.mpr rfl)

theorem forwardRequest_wp (hf : server.forward = true) (ht : Taken A r body fields) :
    (forwardRequest server r cycle body fields).wp A (Grows A server r) (fun _ _ => True) (fun _ _ => True)
      [.recorded (requestRecord r cycle ts body fields)] := by
  refine (Prog.wp_bind _ _).mpr (wp_rescue ((Prog.wp_map _ _).mpr (Prog.wp_consequence (passOn_wp hf ht rfl) ?_ fun _ _ => id)) ?_ fun _ _ _ => trivial)
  · rintro ⟨response, x⟩ _ ⟨sent, ts, ms, rfl, hx⟩
    exact conclude_wp rfl hx
  · intro e t hs
    refine (Prog.wp_bind _ _).mpr (Prog.wp_consequence (unavailable_wp hf hs rfl rfl) ?_ fun _ _ _ => trivial)
    exact fun _ _ _ => trivial

end Forward

theorem localOutcome_wp {body : List UInt8} {q : ProxyEvent} (hl : server.forward = false) (hq : q.concludes = false) :
    (localOutcome r cycle body).wp A (Grows A server r) (fun _ t => t ≠ [] ∧ ∀ e ∈ t, e.concludes = false)
      (fun _ t => t ≠ [] ∧ ∀ e ∈ t, e.concludes = false) [q] := by
  have hone : [q] ≠ [] ∧ ∀ e ∈ [q], e.concludes = false := ⟨List.cons_ne_nil _ _, List.forall_mem_singleton.mpr hq⟩
  unfold localOutcome
  split
  · exact hone
  · split
    · split
      · exact hone
      · have htwo {x : List UInt8} : [q, .delivered cycle x] ≠ [] ∧ ∀ e ∈ [q, .delivered cycle x], e.concludes = false :=
          ⟨List.cons_ne_nil _ _, List.forall_mem_cons.mpr ⟨hq, List.forall_mem_singleton.mpr rfl⟩⟩
        refine (Prog.wp_bind _ _).mpr (wp_emit (.delivered hl) ((Prog.wp_bind _ _).mpr (wp_call ?_)))
        rintro x -
        exact ⟨fun _ _ => htwo, fun _ _ => htwo⟩
    · exact hone

theorem sendLocal_wp {outcome : Nat × List (String × Json)} (hl : server.forward = false) (hs : s ≠ [] ∧ ∀ e ∈ s, e.concludes = false) :
    (sendLocal r cycle outcome).wp A (Grows A server r) (fun _ _ => True) (fun _ _ => True) s := by
  refine (Prog.wp_bind _ _).mpr fun reason _ => (Prog.wp_bind _ _).mpr fun ts _ => (Prog.wp_bind _ _).mpr fun ms _ => (Prog.wp_bind _ _).mpr ?_
  have hanswer {t : List ProxyEvent} (ht : ∀ e ∈ t, e.concludes = false) : (do
      emit (.answered cycle (localAnswer outcome reason))
      write (localAnswer outcome reason).head
      rescue (write (localAnswer outcome reason).body) isOsError fun _ => pure () : ProxyAct Unit).wp A (Grows A server r)
        (fun _ _ => True) (fun _ _ => True) t := by
    refine (Prog.wp_bind _ _).mpr (wp_emit (.localAnswered hl ht) ((Prog.wp_bind _ _).mpr (wp_call ?_)))
    rintro x -
    refine ⟨fun _ _ => ?_, fun _ _ => trivial⟩
    refine wp_rescue (F := fun _ _ => True) (wp_call ?_) (fun _ _ _ => trivial) fun _ _ _ => trivial
    rintro y -
    exact ⟨fun _ _ => trivial, fun _ _ => trivial⟩
  refine wp_tryRecord (.localResponse (a := localAnswer outcome reason) hl hs.1) (hanswer fun e he => ?_) (hanswer hs.2) fun _ => trivial
  rcases List.mem_append.mp he with he | he
  · exact hs.2 e he
  · obtain rfl := List.mem_singleton.mp he
    rfl

theorem handle_wp : (handle server r).wp A (Grows A server r) (fun _ _ => True) (fun _ _ => True) [] := by
  refine (Prog.wp_bind _ _).mpr fun cycle hid => (Prog.wp_bind _ _).mpr fun ts _ => (Prog.wp_bind _ _).mpr ?_
  refine wp_rescue ((Prog.wp_map _ _).mpr (Prog.wp_consequence (takeRequest_wp hid) ?_ fun _ _ => id)) ?_ fun _ _ _ => trivial
  · rintro ⟨body, fields⟩ _ ⟨rfl, ht⟩
    change (if server.forward then forwardRequest server r cycle body fields else localReply r cycle body).wp _ _ _ _ _
    split
    · next hf => exact forwardRequest_wp hf ht
    · next hl =>
      have hoff : server.forward = false := Bool.not_eq_true _ ▸ hl
      refine (Prog.wp_bind _ _).mpr (wp_rescue (Prog.wp_consequence (localOutcome_wp hoff rfl) ?_ fun _ _ => id) ?_ fun _ _ _ => trivial)
      · exact fun _ _ hs => sendLocal_wp hoff hs
      · exact fun _ _ hs => sendLocal_wp hoff hs
  · rintro e _ rfl
    exact (Prog.wp_bind _ _).mpr (wp_refuse .unrecorded trivial fun _ => trivial)

end Handling

section Handled

variable {server : ProxyServer} {r : ProxyRequest} {env : Nat → (q : ProxyQuery) → ProxyReply q} {pre post : List ProxyEvent} {e : ProxyEvent}
  {n : Nat} {cycle : String} {sent : List UInt8} {A : Answers}

/-- The answers of the surroundings. -/
def given (env : Nat → (q : ProxyQuery) → ProxyReply q) : Answers := fun q x => ∃ i, env i q = x

/-- Every event was one that might happen next. -/
def Orderly (A : Answers) (server : ProxyServer) (r : ProxyRequest) (t : List ProxyEvent) : Prop :=
  ∀ pre e post, t = pre ++ e :: post → Next A server r pre e

theorem orderly_stop (env : Nat → (q : ProxyQuery) → ProxyReply q) (n : Nat) : Orderly (given env) server r ((handle server r).stop n env []) := by
  have hrun : Relation.ReflTransGen (Grows (given env) server r) [] ((handle server r).stop n env []) :=
    Prog.wp_stop handle_wp n env fun i q => ⟨i, rfl⟩
  generalize (handle server r).stop n env [] = t at hrun
  induction hrun with
  | refl =>
    intro pre e post he
    cases pre <;> cases he
  | tail _ hs ih =>
    obtain ⟨last, rfl, hn⟩ := hs
    intro pre e post he
    rcases List.eq_nil_or_concat post with rfl | ⟨post, x, rfl⟩
    · obtain ⟨rfl, hlast⟩ := List.append_inj' he rfl
      obtain rfl := List.singleton_inj.mp hlast
      exact hn
    · refine ih pre e post ?_
      have hsplit : pre ++ e :: post.concat x = (pre ++ e :: post) ++ [x] := by simp
      exact (List.append_inj' (he.trans hsplit) rfl).1

theorem contacted_inv (h : Next A server r pre (.contacted cycle sent)) : server.forward = true ∧ ∃ ts body fields head,
    pre = [.recorded (requestRecord r cycle ts body fields)] ∧ Taken A r body fields
      ∧ Http.requestHead r.command.text r.path (forwardedFields server.netloc r.headers fields body) = .ok head ∧ sent = head ++ body := by
  cases h with
  | contacted hf ht hh => exact ⟨hf, _, _, _, _, rfl, ht, hh, rfl⟩

theorem received_inv {response : ProxyResponse} (h : Next A server r pre (.received cycle response)) :
    ∃ q sent, pre = [q, .contacted cycle sent] ∧ A (.exchange sent) (.ok response) := by
  cases h with
  | received ha => exact ⟨_, _, rfl, ha⟩

theorem concludes_inv (h : Next A server r pre e) (he : e.concludes = true) : ∀ e ∈ pre, e.concludes = false := by
  cases h with
  | unrecorded => exact List.forall_mem_nil _
  | unavailable _ hq => exact hq
  | answered hq => exact hq
  | localAnswered _ hq => exact hq
  | _ => cases he

theorem refused_inv {status : Nat} {message : String} (h : Next A server r pre (.refused cycle status message)) : ∀ e ∈ pre, e.receives = false := by
  cases h with
  | unrecorded => exact List.forall_mem_nil _
  | unavailable _ _ hr => exact hr

theorem request_inv {x : ProxyRecord} {ts b64 : String} {method path : List UInt8} {hs : List Field} {size : Nat}
    (h : Next A server r pre (.recorded x)) (hx : x = .request cycle ts method path hs size b64) : A .uuid cycle := by
  cases h with
  | request hid =>
    cases hx
    exact hid
  | _ => cases hx

section Once

variable {t : List ProxyEvent}

theorem contacted_once (ho : Orderly A server r t) (ht : t = pre ++ .contacted cycle sent :: post) (c : String) (s : List UInt8) :
    .contacted c s ∉ pre ++ post := by
  obtain ⟨-, ts, body, fields, head, rfl, -⟩ := contacted_inv (ho pre _ post ht)
  intro hm
  rcases List.mem_append.mp hm with hm | hm
  · cases List.mem_singleton.mp hm
  · obtain ⟨before, after, rfl⟩ := List.append_of_mem hm
    obtain ⟨-, ts', body', fields', head', hpre, -⟩ := contacted_inv (ho (_ :: .contacted cycle sent :: before) (.contacted c s) after ht)
    cases (List.cons.inj hpre).2

theorem concludes_once (ho : Orderly A server r t) (ht : t = pre ++ e :: post) (he : e.concludes = true) :
    ∀ e' ∈ pre ++ post, e'.concludes = false := by
  intro e' hm
  rcases List.mem_append.mp hm with hm | hm
  · exact concludes_inv (ho pre e post ht) he e' hm
  · by_contra hc
    obtain ⟨before, after, rfl⟩ := List.append_of_mem hm
    have hsplit : t = (pre ++ e :: before) ++ e' :: after := by rw [ht, List.append_assoc, List.cons_append]
    have hquiet := concludes_inv (ho _ e' after hsplit) (Bool.not_eq_false _ ▸ hc) e (List.mem_append_right _ List.mem_cons_self)
    cases he.symm.trans hquiet

theorem refused_alone (ho : Orderly A server r t) {status : Nat} {message : String} (ht : t = pre ++ .refused cycle status message :: post) :
    ∀ e' ∈ t, e'.receives = false := by
  subst ht
  intro e' hm
  rcases List.mem_append.mp hm with hm | hm
  · exact refused_inv (ho pre _ post rfl) e' hm
  rcases List.mem_cons.mp hm with rfl | hm
  · rfl
  cases e' with
  | received c response =>
    obtain ⟨before, after, rfl⟩ := List.append_of_mem hm
    have hsplit : pre ++ .refused cycle status message :: (before ++ .received c response :: after)
        = (pre ++ .refused cycle status message :: before) ++ .received c response :: after := by simp
    obtain ⟨q, sent, hpre, -⟩ := received_inv (ho _ _ after hsplit)
    have hrefused : .refused cycle status message ∈ [q, .contacted c sent] := hpre ▸ List.mem_append_right _ List.mem_cons_self
    rcases List.mem_cons.mp hrefused with rfl | hm
    · have hfirst : pre ++ .refused cycle status message :: (before ++ .received c response :: after)
          = [.refused cycle status message] ++ .contacted c sent :: .received c response :: after := by
        rw [hsplit, hpre]
        rfl
      obtain ⟨-, ts, body, fields, head, hq, -⟩ := contacted_inv (ho _ _ _ hfirst)
      cases hq
    · cases List.mem_singleton.mp hm
  | _ => rfl

end Once

section Sample

/-- A request with a body and a secret. -/
def sampleRequest : ProxyRequest :=
  ⟨.post, Utf8.ascii "/x", [(Utf8.ascii "Host", Utf8.ascii "h"), (Utf8.ascii "Cookie", Utf8.ascii "c"), (Utf8.ascii "Content-Length", Utf8.ascii "2")]⟩

def sampleResponse : ProxyResponse := ⟨200, Utf8.ascii "OK", [(Utf8.ascii "Content-Length", Utf8.ascii "1")], Utf8.ascii "y"⟩

/-- The answers to a handler. -/
def sampleReplies (h : Nat) (_ : Nat) : (q : ProxyQuery) → ProxyReply q
  | .uuid => String.ofList (List.replicate h 'u')
  | .now => "t"
  | .elapsed => Decimal.ofNat 0
  | .arrive => .ok (Utf8.ascii "hi")
  | .append _ | .reach | .write _ | .sendError _ _ => .ok ()
  | .exchange _ => .ok sampleResponse
  | .loopback _ => .ok (200, [])
  | .phrase _ => Utf8.ascii "OK"

def sampleServer : ProxyServer := ⟨true, Utf8.ascii "box"⟩

def sampleTrace (h : Nat) : List ProxyEvent := (handle sampleServer sampleRequest).stop 40 (sampleReplies h) []

def sampleSent : List UInt8 :=
  Http.head (Utf8.ascii "POST /x HTTP/1.1")
    (forwardedFields sampleServer.netloc sampleRequest.headers sampleRequest.headers (Utf8.ascii "hi")) ++ Utf8.ascii "hi"

theorem sampleTrace_eq (h : Nat) : ∃ x y cycle, sampleTrace h = [.recorded x, .contacted cycle sampleSent, .received cycle sampleResponse,
    .recorded y, .answered cycle (answerOf .post sampleResponse)] := ⟨_, _, _, rfl⟩

end Sample

end Handled

section Journals

variable {server : ProxyServer} {requests : Nat → ProxyRequest} {env : Nat → Nat → (q : ProxyQuery) → ProxyReply q}
  {journal pre post : List (Nat × ProxyEvent)} {h : Nat} {cycle : String} {sent : List UInt8}

/-- What one handler did. -/
def own (h : Nat) (journal : List (Nat × ProxyEvent)) : List ProxyEvent := (journal.filter fun e => e.1 = h).map Prod.snd

/-- What any number of handlers have done by some moment, in any interleaving: each a part of a run of its own. -/
def Interleaved (server : ProxyServer) (requests : Nat → ProxyRequest) (env : Nat → Nat → (q : ProxyQuery) → ProxyReply q)
    (journal : List (Nat × ProxyEvent)) : Prop :=
  ∀ h, ∃ n, own h journal = (handle server (requests h)).stop n (env h) []

theorem own_split {e : ProxyEvent} (pre post : List (Nat × ProxyEvent)) : own h (pre ++ (h, e) :: post) = own h pre ++ e :: own h post := by
  simp [own]

theorem mem_own {e : ProxyEvent} : e ∈ own h journal ↔ (h, e) ∈ journal := by
  simp [own]

theorem Interleaved.orderly (hj : Interleaved server requests env journal) (h : Nat) :
    Orderly (given (env h)) server (requests h) (own h journal) := by
  obtain ⟨n, hn⟩ := hj h
  rw [hn]
  exact orderly_stop (env h) n

/-- The fields of a record. -/
def ProxyRecord.headers : ProxyRecord → List Field
  | .request _ _ _ _ headers _ _ => headers
  | .response _ _ _ _ _ _ _ headers _ _ _ => headers
  | .failure .. | .delivery .. => []

theorem loggedHeaders_redacted {fields : List Field} {f : Field} (hf : f ∈ loggedHeaders fields) (hs : lower f.1 ∈ secret) :
    f.2 = Utf8.ascii "[redacted]" := by
  obtain ⟨g, -, rfl⟩ := List.mem_map.mp hf
  exact if_pos hs

theorem recorded_redacted {A : Answers} {r : ProxyRequest} {before : List ProxyEvent} {x : ProxyRecord}
    (hn : Next A server r before (.recorded x)) {f : Field} (hf : f ∈ x.headers) (hs : lower f.1 ∈ secret) : f.2 = Utf8.ascii "[redacted]" := by
  cases hn with
  | request => exact loggedHeaders_redacted hf hs
  | response => exact loggedHeaders_redacted hf hs
  | failed => cases hf
  | delivery => cases hf
  | @localResponse _ _ _ a =>
    have htype : lower (Utf8.ascii "Content-Type") ∉ secret := by decide
    have hlength : lower (Utf8.ascii "Content-Length") ∉ secret := by decide
    rcases List.mem_cons.mp hf with rfl | hf
    · exact absurd hs htype
    · obtain rfl := List.mem_singleton.mp hf
      exact absurd hs hlength

/-- A handler that contacted the origin under an id was given that id. -/
theorem Interleaved.given_id (hj : Interleaved server requests env journal) (hc : (h, .contacted cycle sent) ∈ journal) :
    ∃ i, env h i .uuid = cycle := by
  obtain ⟨before, after, hsplit⟩ := List.append_of_mem (mem_own.mpr hc)
  have horder := hj.orderly h
  obtain ⟨-, ts, body, fields, head, rfl, -⟩ := contacted_inv (horder before _ after hsplit)
  exact request_inv (horder [] _ (.contacted cycle sent :: after) hsplit) rfl

/-- However many requests are handled at once, the journals hold every request before the origin sees it, with the body it sees, and
the origin sees it once; a request is refused or answered once at most, and not refused once the origin has answered; and no record
has the value of a secret field. -/
theorem journal_sound (hid : ∀ h i k j, env h i .uuid = env k j .uuid → h = k) (hj : Interleaved server requests env journal) :
    (∀ pre h cycle sent post, journal = pre ++ (h, .contacted cycle sent) :: post →
      (∃ ts hs size b64 body head, (h, .recorded (.request cycle ts (requests h).command.text (requests h).path hs size b64)) ∈ pre
        ∧ Base64.decode b64 = some body ∧ size = body.length ∧ sent = head ++ body)
      ∧ server.forward = true ∧ ∀ k other, (k, .contacted cycle other) ∉ pre ++ post)
    ∧ (∀ pre h e post, journal = pre ++ (h, e) :: post → e.concludes = true →
      (∀ e', (h, e') ∈ pre ++ post → e'.concludes = false)
      ∧ ∀ cycle status message, e = .refused cycle status message → ∀ e', (h, e') ∈ journal → e'.receives = false)
    ∧ ∀ h x, (h, .recorded x) ∈ journal → ∀ f ∈ x.headers, lower f.1 ∈ secret → f.2 = Utf8.ascii "[redacted]" := by
  refine ⟨?_, ?_, ?_⟩
  · rintro pre h cycle sent post rfl
    have hown : own h (pre ++ (h, .contacted cycle sent) :: post) = own h pre ++ .contacted cycle sent :: own h post := own_split pre post
    have horder := hj.orderly h
    obtain ⟨hf, ts, body, fields, head, hpre, -, -, hsent⟩ := contacted_inv (horder _ _ _ hown)
    refine ⟨⟨ts, loggedHeaders fields, body.length, Base64.encode body, body, head, ?_, Base64.decode_encode body, rfl, hsent⟩, hf, ?_⟩
    · refine mem_own.mp ?_
      rw [hpre]
      exact List.mem_singleton_self _
    · intro k other hm
      have hthere : (k, .contacted cycle other) ∈ pre ++ (h, .contacted cycle sent) :: post := by
        rcases List.mem_append.mp hm with hm | hm
        · exact List.mem_append_left _ hm
        · exact List.mem_append_right _ (List.mem_cons_of_mem _ hm)
      obtain ⟨i, hi⟩ := hj.given_id hthere
      obtain ⟨j, hj'⟩ := hj.given_id (List.mem_append_right pre (List.mem_cons_self (a := (h, ProxyEvent.contacted cycle sent)) (l := post)))
      obtain rfl := hid k i h j (hi.trans hj'.symm)
      refine contacted_once horder hown cycle other ?_
      rw [List.mem_append, mem_own, mem_own, ← List.mem_append]
      exact hm
  · rintro pre h e post rfl he
    have hown : own h (pre ++ (h, e) :: post) = own h pre ++ e :: own h post := own_split pre post
    refine ⟨fun e' hm => ?_, ?_⟩
    · refine concludes_once (hj.orderly h) hown he e' ?_
      rw [List.mem_append, mem_own, mem_own, ← List.mem_append]
      exact hm
    · rintro cycle status message rfl e' hm
      exact refused_alone (hj.orderly h) hown e' (mem_own.mpr hm)
  · intro h x hx f hf hs
    obtain ⟨before, after, hsplit⟩ := List.append_of_mem (mem_own.mpr hx)
    exact recorded_redacted (hj.orderly h before _ after hsplit) hf hs

/-- Two requests at once. -/
def sampleJournal : List (Nat × ProxyEvent) :=
  ((sampleTrace 0).take 2).map (0, ·) ++ (sampleTrace 1).map (1, ·) ++ ((sampleTrace 0).drop 2).map (0, ·)

theorem own_append (journal others : List (Nat × ProxyEvent)) : own h (journal ++ others) = own h journal ++ own h others := by
  simp [own]

theorem own_map (k : Nat) (t : List ProxyEvent) : own h (t.map (k, ·)) = if k = h then t else [] := by
  unfold own
  rw [List.filter_map, List.map_map]
  split
  · next hk => simp [Function.comp_def, hk]
  · next hk => simp [Function.comp_def, hk]

theorem sampleJournal_interleaved : Interleaved sampleServer (fun _ => sampleRequest) sampleReplies sampleJournal := by
  intro h
  simp only [sampleJournal, own_append, own_map]
  by_cases h0 : 0 = h
  · subst h0
    refine ⟨40, ?_⟩
    rw [if_pos rfl, if_neg (by decide), if_pos rfl, List.append_nil, List.take_append_drop]
    rfl
  · by_cases h1 : 1 = h
    · subst h1
      refine ⟨40, ?_⟩
      rw [if_neg h0, if_pos rfl, if_neg h0, List.append_nil, List.nil_append]
      rfl
    · refine ⟨0, ?_⟩
      rw [if_neg h0, if_neg h1, if_neg h0, Prog.stop_zero]
      rfl

theorem journal_sound_sample : ∃ cycle ts hs size b64 body head,
    sampleJournal.head? = some (0, .recorded (.request cycle ts sampleRequest.command.text sampleRequest.path hs size b64))
      ∧ Base64.decode b64 = some body ∧ size = body.length ∧ sampleSent = head ++ body := by
  have hid : ∀ h i k j, sampleReplies h i .uuid = sampleReplies k j .uuid → h = k := by
    intro h i k j he
    have hlen := congrArg List.length (String.ofList_injective he)
    rwa [List.length_replicate, List.length_replicate] at hlen
  have hsplit : ∃ x cycle post, sampleJournal = [(0, .recorded x)] ++ (0, .contacted cycle sampleSent) :: post := by
    obtain ⟨x, y, cycle, htrace⟩ := sampleTrace_eq 0
    rw [sampleJournal, htrace]
    exact ⟨x, cycle, _, rfl⟩
  obtain ⟨x, cycle, post, hsplit⟩ := hsplit
  obtain ⟨⟨ts, hs, size, b64, body, head, hrecorded, hdecode, hsize, hsent⟩, -⟩ := (journal_sound hid sampleJournal_interleaved).1 _ _ _ _ _ hsplit
  have hfirst := List.mem_singleton.mp hrecorded
  exact ⟨cycle, ts, hs, size, b64, body, head, by rw [hsplit, hfirst]; rfl, hdecode, hsize, hsent⟩

end Journals

end Proxy

end MatchTrader
