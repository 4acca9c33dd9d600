import Andsifr.Wasi.Poll

namespace Andsifr.Wasi

open Lib Wasm Sys List Option MemoryInstance

/-- What is to be done with a subscription: a relative timeout, a subscription that is answered at
once, one to a file in blocking mode, or one that is not supported. -/
inductive Subscription where
  | clock (timeout : UInt64)
  | immediate (errno : UInt8)
  | blocking (fd : UInt32) (file : PollFile)
  | unsupported (errno : Errno)
  deriving DecidableEq, Repr

def subscriptionAt (lookupFile : UInt32 → Option PollFile) (mem : MemoryInstance) (address : Nat) :
    Subscription :=
  let argBuf := address + 16
  let fd := UInt32.ofNat (numberAt mem argBuf 4)
  if eventTypeAt mem address = eventTypeClock then
    if numberAt mem (argBuf + 24) 2 = 0 then .clock (.ofNat (numberAt mem (argBuf + 8) 8))
    else if numberAt mem (argBuf + 24) 2 = 1 then .unsupported .ENOTSUP
    else .unsupported .EINVAL
  else if eventTypeAt mem address = eventTypeFdRead then
    if 2 ^ 31 ≤ fd.toNat then .unsupported .EBADF
    else match lookupFile fd with
      | none => .immediate errnoBadf
      | some file => if fd ≠ 0 ∧ file.nonblock then .immediate errnoSuccess else .blocking fd file
  else if eventTypeAt mem address = eventTypeFdWrite then
    if 2 ^ 31 ≤ fd.toNat then .unsupported .EBADF
    else match lookupFile fd with
      | none => .immediate errnoBadf
      | some _ => .immediate errnoNotsup
  else .unsupported .EINVAL

/-- An event for the subscription at an address, as its 32 bytes. -/
def eventBytes (mem : MemoryInstance) (address : Nat) (errno : UInt8) : List UInt8 :=
  mem.buffer.extract address 8 ++ [errno, 0] ++ leBytes 4 (eventTypeAt mem address).toNat ++
    replicate 18 0

/-- The error with which a subscription is answered at once. -/
def Subscription.answer : Subscription → Option UInt8
  | clock _ => some errnoSuccess
  | immediate errno => some errno
  | blocking _ _ | unsupported _ => none

/-- The error with which a poll answers a subscription. -/
def PollAnswer.event (a : PollAnswer) : Option UInt8 :=
  if a.errno = .success then if a.ready then some errnoSuccess else none
  else if a.errno = .ENOSYS ∨ a.errno = .ENOTSUP then some errnoNotsup
  else none

variable {lookupFile : UInt32 → Option PollFile} {mem : MemoryInstance} {out address : Nat}
  {s s' : Polling}

section

variable {mem' : MemoryInstance} (h : ∀ k m, k + m ≤ 48 →
  mem'.buffer.extract (address + k) m = mem.buffer.extract (address + k) m)

include h

theorem eventTypeAt_congr : eventTypeAt mem' address = eventTypeAt mem address := by
  rw [eventTypeAt, eventTypeAt, numberAt, numberAt, h 8 1 (by decide)]

/-- A subscription is what its 48 bytes say. -/
theorem subscriptionAt_congr : subscriptionAt lookupFile mem' address =
    subscriptionAt lookupFile mem address := by
  have hnumber (k m : Nat) (hk : k + m ≤ 48) :
      numberAt mem' (address + k) m = numberAt mem (address + k) m :=
    congrArg leNat (h k m hk)
  simp only [subscriptionAt, eventTypeAt_congr h, add_assoc, hnumber 16 4 (by decide),
    hnumber (16 + 24) 2 (by decide), hnumber (16 + 8) 8 (by decide)]

end

theorem pollSubscription_eq : pollSubscription lookupFile out address s =
    match subscriptionAt lookupFile s.mem address with
    | .clock timeout =>
      .ok (Polling.write { s with timeout := min s.timeout (duration timeout) } out
        ⟨eventTypeAt s.mem address, address, errnoSuccess⟩)
    | .immediate errno => .ok (s.write out ⟨eventTypeAt s.mem address, address, errno⟩)
    | .blocking fd file => .ok { s with blockingPollSubs := s.blockingPollSubs ++
        [⟨⟨eventTypeAt s.mem address, address, errnoSuccess⟩, fd, file⟩] }
    | .unsupported errno => .error errno := by
  have hmin : ∀ d : Int, (if d < s.timeout then d else s.timeout) = min s.timeout d := by
    intro d
    split <;> omega
  simp only [pollSubscription, subscriptionAt, processClockEvent]
  split
  next =>
    split
    next => simp only [← hmin]; rfl
    next => split <;> rfl
  cases lookupFile (UInt32.ofNat (numberAt s.mem (address + 16) 4)) with
  | none =>
    split
    next => split <;> rfl
    split
    next => split <;> rfl
    next => rfl
  | some file =>
    dsimp only
    split
    next =>
      split
      next => rfl
      next => split <;> rfl
    split
    next => split <;> rfl
    next => rfl

/-- The output: the bytes of the events so far and then zeros. Everything else is as in `before`. -/
def Output (before : MemoryInstance) (out total : Nat) (bytes : List UInt8) (m : MemoryInstance) :
    Prop :=
  m.buffer.len = before.buffer.len ∧ ∀ j, m.byteAt j =
    if out ≤ j ∧ j < out + 32 * total then bytes[j - out]?.getD 0 else before.byteAt j

section

variable {before m : MemoryInstance} {total : Nat} {bytes : List UInt8}

section

variable (h : Output before out total bytes m)

include h

theorem Output.extract_eq {i n : Nat}
    (hi : i + n ≤ before.buffer.len) (hdisjoint : i + n ≤ out ∨ out + 32 * total ≤ i) :
    m.buffer.extract i n = before.buffer.extract i n := by
  rw [extract_eq_map (h.1 ▸ hi), extract_eq_map hi]
  refine map_congr_left fun k hk => ?_
  have hk := mem_range.1 hk
  rw [h.2, if_neg (by omega)]

theorem Output.extract_bytes
    (hout : out + 32 * total ≤ before.buffer.len) (hbytes : bytes.length ≤ 32 * total) :
    m.buffer.extract out bytes.length = bytes := by
  rw [extract_eq_map (by rw [h.1]; omega)]
  refine ext_getElem (by simp) fun k hk hk' => ?_
  rw [getElem_map, getElem_range, h.2, if_pos (by omega), Nat.add_sub_cancel_left,
    getElem?_eq_getElem hk', getD_some]

theorem Output.write
    (hout : out + 32 * total ≤ before.buffer.len) {k : Nat} (hbytes : bytes.length = 32 * k)
    (hk : k < total) {evt : Event} (huser : evt.userData + 8 ≤ before.buffer.len)
    (hdisjoint : evt.userData + 8 ≤ out ∨ out + 32 * total ≤ evt.userData) :
    Output before out total (bytes ++ (before.buffer.extract evt.userData 8 ++ [evt.errno, 0] ++
      leBytes 4 evt.eventType.toNat ++ replicate 18 0)) (writeEvent m (out + k * 32) evt) := by
  have huser' := h.extract_eq huser hdisjoint
  have hlen : (before.buffer.extract evt.userData 8 ++ [evt.errno, 0] ++
      leBytes 4 evt.eventType.toNat).length = 14 := by
    simp [Slice.length_extract huser]
  refine ⟨(Slice.overwrite_len ..).trans h.1, fun j => ?_⟩
  rw [writeEvent, huser', byteAt_store (by rw [hlen, h.1]; omega), h.2 j]
  generalize before.buffer.extract evt.userData 8 ++ [evt.errno, 0] ++
    leBytes 4 evt.eventType.toNat = w at hlen ⊢
  by_cases hregion : out ≤ j ∧ j < out + 32 * total
  · rw [if_pos hregion, if_pos hregion]
    by_cases hj : out + k * 32 ≤ j
    · have hpast : bytes[j - out]? = none := getElem?_eq_none (by omega)
      rw [if_pos hj, hpast, getElem?_append_right (by omega), hbytes,
        show j - out - 32 * k = j - (out + k * 32) by omega]
      by_cases hw : j - (out + k * 32) < 14
      · rw [getElem?_append_left (by omega)]
        rfl
      · rw [getElem?_eq_none (by omega), getElem?_append_right (by omega),
          getElem?_replicate]
        split <;> rfl
    · rw [if_neg hj, getElem?_append_left (by omega)]
  · split
    next hj =>
      rw [getElem?_eq_none (by omega)]
      rfl
    next => rfl

end

end

def addresses (inn n : Nat) : List Nat :=
  (range n).map fun i => inn + 48 * i

section

variable (lookupFile : UInt32 → Option PollFile) (mem : MemoryInstance)

def clockAt (address : Nat) : Option UInt64 :=
  match subscriptionAt lookupFile mem address with
  | .clock timeout => some timeout
  | _ => none

/-- The subscription, if it is one to a file in blocking mode. -/
def blockingAt (address : Nat) : Option BlockingSub :=
  match subscriptionAt lookupFile mem address with
  | .blocking fd file => some ⟨⟨eventTypeAt mem address, address, errnoSuccess⟩, fd, file⟩
  | _ => none

/-- The subscription is answered at once, and how. -/
def answerAt (address : Nat) : Option (Nat × UInt8) :=
  (subscriptionAt lookupFile mem address).answer.map fun errno => (address, errno)

def Supported (address : Nat) : Prop :=
  ∀ errno, subscriptionAt lookupFile mem address ≠ .unsupported errno

end

/-- How the files in blocking mode answer the polls. -/
def deferredAnswers : List BlockingSub → List PollCall → List (Nat × UInt8)
  | [], _ => []
  | sub :: subs, polls =>
    if !sub.file.pollable then (sub.evt.userData, errnoNotsup) :: deferredAnswers subs polls
    else match polls with
      | [] => []
      | call :: polls =>
        (call.answer.event.map fun errno => (sub.evt.userData, errno)).toList ++
          deferredAnswers subs polls

def eventsBytes (mem : MemoryInstance) (answers : List (Nat × UInt8)) : List UInt8 :=
  answers.flatMap fun a => eventBytes mem a.1 a.2

def smallest (timeouts : List UInt64) : Int :=
  timeouts.foldl (fun d timeout => min d (duration timeout)) (2 ^ 63 - 1)

section

variable {before m : MemoryInstance} {total inn i : Nat} {answers : List (Nat × UInt8)}

theorem length_eventsBytes (h : ∀ a ∈ answers, a.1 + 8 ≤ mem.buffer.len) :
    (eventsBytes mem answers).length = 32 * answers.length := by
  induction answers with
  | nil => rfl
  | cons a answers ih =>
    have ha : (eventBytes mem a.1 a.2).length = 32 := by
      simp [eventBytes, Slice.length_extract (h a (by simp))]
    rw [eventsBytes, flatMap_cons, length_append, ha, ← eventsBytes,
      ih fun b hb => h b (by simp [hb]), length_cons]
    omega

structure Regions (before : MemoryInstance) (inn out total : Nat) : Prop where
  subscriptions : inn + 48 * total ≤ before.buffer.len
  events : out + 32 * total ≤ before.buffer.len
  disjoint : inn + 48 * total ≤ out ∨ out + 32 * total ≤ inn

/-- The state of the loop: the answers so far are written. -/
structure Answered (before : MemoryInstance) (inn out total : Nat) (answers : List (Nat × UInt8))
    (s : Polling) : Prop where
  output : Output before out total (eventsBytes before answers) s.mem
  nevents : s.nevents = answers.length
  addresses : ∀ a ∈ answers, inn ≤ a.1 ∧ a.1 + 48 ≤ inn + 48 * total

theorem Answered.write (hr : Regions before inn out total)
    (h : Answered before inn out total answers s) (hlt : answers.length < total)
    (haddress : inn ≤ address ∧ address + 48 ≤ inn + 48 * total) (errno : UInt8) :
    Answered before inn out total (answers ++ [(address, errno)])
      (s.write out ⟨eventTypeAt before address, address, errno⟩) where
  output := by
    have hs := hr.subscriptions
    have hd := hr.disjoint
    have hbytes := @length_eventsBytes before answers fun a ha => by
      have := h.addresses a ha
      omega
    have hw := @Output.write _ _ _ _ _ h.output hr.events _ hbytes hlt
      ⟨eventTypeAt before address, address, errno⟩ (by simp only; omega) (by simp only; omega)
    rw [eventsBytes, flatMap_append, flatMap_singleton]
    rw [Polling.write, h.nevents]
    exact hw
  nevents := by
    rw [Polling.write, h.nevents, length_append]
    rfl
  addresses := by
    intro a ha
    obtain ha | ha := mem_append.1 ha
    · exact h.addresses a ha
    · rw [mem_singleton.1 ha]
      exact haddress

theorem Answered.subscriptionAt_eq (lookupFile : UInt32 → Option PollFile)
    (hr : Regions before inn out total) (h : Answered before inn out total answers s)
    (haddress : inn ≤ address ∧ address + 48 ≤ inn + 48 * total) :
    subscriptionAt lookupFile s.mem address = subscriptionAt lookupFile before address ∧
      eventTypeAt s.mem address = eventTypeAt before address := by
  have hs := hr.subscriptions
  have hd := hr.disjoint
  have hextract : ∀ k m, k + m ≤ 48 →
      s.mem.buffer.extract (address + k) m = before.buffer.extract (address + k) m :=
    fun _ _ _ => h.output.extract_eq (by omega) (by omega)
  exact ⟨subscriptionAt_congr hextract, eventTypeAt_congr hextract⟩

/-- What the loop has made of the first `i` subscriptions. -/
structure FirstPass (lookupFile : UInt32 → Option PollFile) (before : MemoryInstance)
    (inn out total i : Nat) (s : Polling) : Prop where
  answered : Answered before inn out total
    ((addresses inn i).filterMap (answerAt lookupFile before)) s
  timeout : s.timeout = smallest ((addresses inn i).filterMap (clockAt lookupFile before))
  blocking : s.blockingPollSubs = (addresses inn i).filterMap (blockingAt lookupFile before)

theorem addresses_succ : addresses inn (i + 1) = addresses inn i ++ [inn + 48 * i] := by
  rw [addresses, range_succ, map_append]
  rfl

theorem filterMap_addresses_succ {α : Type} (f : Nat → Option α) :
    (addresses inn (i + 1)).filterMap f =
      (addresses inn i).filterMap f ++ (f (inn + 48 * i)).toList := by
  rw [addresses_succ]
  cases h : f (inn + 48 * i) <;> simp [h]

theorem mem_addresses : address ∈ addresses inn i ↔ ∃ k < i, address = inn + 48 * k := by
  simp [addresses, eq_comm]

theorem length_answers_le :
    ((addresses inn i).filterMap (answerAt lookupFile before)).length ≤ i := by
  refine (length_filterMap_le _ _).trans ?_
  simp [addresses]

/-- A subscription that is supported is answered at once or is one to a file in blocking mode. -/
theorem length_answers_add_blocking (h : ∀ k < i, Supported lookupFile before (inn + 48 * k)) :
    ((addresses inn i).filterMap (answerAt lookupFile before)).length +
      ((addresses inn i).filterMap (blockingAt lookupFile before)).length = i := by
  induction i with
  | zero => rfl
  | succ i ih =>
    have ih := ih fun k hk => h k (by omega)
    have hone : (answerAt lookupFile before (inn + 48 * i)).toList.length +
        (blockingAt lookupFile before (inn + 48 * i)).toList.length = 1 := by
      have hsupported := h i (Nat.lt_succ_self i)
      unfold answerAt blockingAt
      cases hkind : subscriptionAt lookupFile before (inn + 48 * i) with
      | clock | immediate | blocking => rfl
      | unsupported errno => exact absurd hkind (hsupported errno)
    rw [filterMap_addresses_succ, filterMap_addresses_succ, length_append, length_append]
    omega

theorem unsupported_ne_success {errno : Errno}
    (h : subscriptionAt lookupFile mem address = .unsupported errno) : errno ≠ .success := by
  simp only [subscriptionAt] at h
  split at h
  next =>
    split at h
    next => cases h
    split at h
    next =>
      cases h
      decide
    next =>
      cases h
      decide
  next =>
    cases hfile : lookupFile (UInt32.ofNat (numberAt mem (address + 16) 4)) <;>
      rw [hfile] at h <;> dsimp only at h <;> split at h <;> split at h <;>
      first
        | (cases h; decide)
        | (split at h <;> first | (cases h; decide) | cases h)
        | cases h

theorem FirstPass.step (hr : Regions before inn out total)
    (h : FirstPass lookupFile before inn out total i s) (hi : i < total) :
    (∃ s', pollSubscription lookupFile out (inn + 48 * i) s = .ok s' ∧
      Supported lookupFile before (inn + 48 * i) ∧
      FirstPass lookupFile before inn out total (i + 1) s') ∨
    ∃ errno, pollSubscription lookupFile out (inn + 48 * i) s = .error errno ∧
      ¬ Supported lookupFile before (inn + 48 * i) ∧ errno ≠ .success := by
  have haddress : inn ≤ inn + 48 * i ∧ inn + 48 * i + 48 ≤ inn + 48 * total := by omega
  have hlt := lt_of_le_of_lt (@length_answers_le lookupFile before inn i) hi
  obtain ⟨hsub, htype⟩ := h.answered.subscriptionAt_eq lookupFile hr haddress
  rw [pollSubscription_eq, hsub, htype]
  have hanswered : ∀ s' : Polling, s'.mem = s.mem → s'.nevents = s.nevents →
      Answered before inn out total ((addresses inn i).filterMap (answerAt lookupFile before)) s' :=
    fun s' hmem hn =>
      ⟨hmem ▸ h.answered.output, hn.trans h.answered.nevents, h.answered.addresses⟩
  cases hkind : subscriptionAt lookupFile before (inn + 48 * i) with
  | clock timeout =>
    refine .inl ⟨_, rfl, fun e he => by simp [hkind] at he, ?_, ?_, ?_⟩
    · rw [filterMap_addresses_succ, answerAt, hkind]
      exact (hanswered { s with timeout := min s.timeout (duration timeout) } rfl rfl).write hr hlt
        haddress errnoSuccess
    · rw [filterMap_addresses_succ, clockAt, hkind, smallest, toList_some,
        foldl_append, ← smallest, ← h.timeout]
      rfl
    · rw [filterMap_addresses_succ, blockingAt, hkind, ← h.blocking, toList_none, append_nil]
      rfl
  | immediate errno =>
    refine .inl ⟨_, rfl, fun e he => by simp [hkind] at he, ?_, ?_, ?_⟩
    · rw [filterMap_addresses_succ, answerAt, hkind]
      exact (hanswered s rfl rfl).write hr hlt haddress errno
    · rw [filterMap_addresses_succ, clockAt, hkind, toList_none, append_nil, ← h.timeout]
      rfl
    · rw [filterMap_addresses_succ, blockingAt, hkind, ← h.blocking, toList_none, append_nil]
      rfl
  | blocking fd file =>
    refine .inl ⟨_, rfl, fun e he => by simp [hkind] at he, ?_, ?_, ?_⟩
    · rw [filterMap_addresses_succ, answerAt, hkind, Subscription.answer, map_none,
        toList_none, append_nil]
      exact hanswered _ rfl rfl
    · rw [filterMap_addresses_succ, clockAt, hkind, toList_none, append_nil]
      exact h.timeout
    · rw [filterMap_addresses_succ, blockingAt, hkind, ← h.blocking, toList_some]
  | unsupported errno =>
    exact .inr ⟨errno, rfl, fun h => h errno hkind, unsupported_ne_success hkind⟩

theorem FirstPass.run (hr : Regions before inn out total) {remaining : Nat}
    (h : FirstPass lookupFile before inn out total i s) (hi : i + remaining = total) :
    (∃ s', pollSubscriptions lookupFile out remaining (inn + 48 * i) s = (s', .success) ∧
      (∀ k, i ≤ k → k < total → Supported lookupFile before (inn + 48 * k)) ∧
      FirstPass lookupFile before inn out total total s') ∨
    ∃ s' errno, pollSubscriptions lookupFile out remaining (inn + 48 * i) s = (s', errno) ∧
      errno ≠ .success ∧ ∃ k < total, ¬ Supported lookupFile before (inn + 48 * k) := by
  induction remaining generalizing i s with
  | zero =>
    obtain rfl : i = total := hi
    exact .inl ⟨s, rfl, fun k _ _ => by omega, h⟩
  | succ remaining ih =>
    obtain ⟨s', hstep, hsupported, hs'⟩ | ⟨errno, hstep, hunsupported, herr⟩ :=
      h.step hr (by omega)
    · rw [pollSubscriptions, hstep]
      obtain ⟨s'', hrun, hall, hs''⟩ | hfailed := ih hs' (by omega)
      · refine .inl ⟨s'', hrun, fun k hk hlt => ?_, hs''⟩
        obtain rfl | hk := eq_or_lt_of_le hk
        · exact hsupported
        · exact hall k hk hlt
      · exact .inr hfailed
    · rw [pollSubscriptions, hstep]
      exact .inr ⟨s, errno, rfl, herr, i, by omega, hunsupported⟩

/-- A subscription to a file in blocking mode, with an event for it. -/
structure Deferred (before : MemoryInstance) (inn total : Nat) (sub : BlockingSub) : Prop where
  evt : sub.evt = ⟨eventTypeAt before sub.evt.userData, sub.evt.userData, errnoSuccess⟩
  address : inn ≤ sub.evt.userData ∧ sub.evt.userData + 48 ≤ inn + 48 * total

theorem deferred_of_mem {sub : BlockingSub}
    (h : sub ∈ (addresses inn total).filterMap (blockingAt lookupFile before)) :
    Deferred before inn total sub := by
  obtain ⟨address, haddress, hsub⟩ := mem_filterMap.1 h
  obtain ⟨k, hk, rfl⟩ := mem_addresses.1 haddress
  unfold blockingAt at hsub
  split at hsub
  next =>
    cases hsub
    exact ⟨rfl, by simp only; omega⟩
  next => cases hsub

def remainingAfter (remaining : Int) (elapsed : Nat) : Int :=
  if elapsed < remaining then remaining - elapsed else 0

def Polling.answer (s : Polling) (out : Nat) (evt : Event) (a : PollAnswer) : Polling :=
  match a.event with
  | some errno => s.write out { evt with errno }
  | none => s

section

variable {poll : List PollCall → UInt32 → Int → PollAnswer} {sub : BlockingSub}
  {subs : List BlockingSub} {remaining : Int} {polls : List PollCall}

theorem pollBlocking_cons_of_not_pollable (h : sub.file.pollable = false) :
    pollBlocking poll out (sub :: subs) remaining s polls =
      pollBlocking poll out subs remaining (s.write out { sub.evt with errno := errnoNotsup })
        polls := by
  rw [pollBlocking, h]
  rfl

variable {calls : List PollCall}

theorem deferredAnswers_cons_of_not_pollable
    (h : sub.file.pollable = false) : deferredAnswers (sub :: subs) calls =
      [(sub.evt.userData, errnoNotsup)] ++ deferredAnswers subs calls := by
  cases calls <;> simp [deferredAnswers, h]

theorem deferredAnswers_cons_of_pollable {call : PollCall}
    (h : sub.file.pollable = true) : deferredAnswers (sub :: subs) (call :: calls) =
      (call.answer.event.map fun errno => (sub.evt.userData, errno)).toList ++
        deferredAnswers subs calls := by
  rw [deferredAnswers, h, if_neg (by simp)]

theorem pollBlocking_cons_of_pollable (h : sub.file.pollable = true) {a : PollAnswer}
    (ha : poll polls sub.fd (pollMillis remaining) = a) :
    pollBlocking poll out (sub :: subs) remaining s polls =
      pollBlocking poll out subs (remainingAfter remaining a.elapsed) (s.answer out sub.evt a)
        (polls ++ [⟨sub.fd, pollMillis remaining, a⟩]) ∨
    a.errno ≠ .success ∧ pollBlocking poll out (sub :: subs) remaining s polls =
      (⟨a.errno, s.mem, none, polls ++ [⟨sub.fd, pollMillis remaining, a⟩]⟩, s.nevents) := by
  rw [pollBlocking, h, if_neg (by simp)]
  simp only [ha, Polling.answer, PollAnswer.event, remainingAfter]
  by_cases hs : a.errno = .success
  · rw [if_pos hs, if_pos hs]
    cases a.ready with
    | true => exact .inl rfl
    | false => exact .inl rfl
  · rw [if_neg hs]
    split
    next => exact .inl rfl
    next => exact .inr ⟨hs, rfl⟩

theorem Answered.pollBlocking (hr : Regions before inn out total)
    (h : Answered before inn out total answers s)
    (hsubs : ∀ sub ∈ subs, Deferred before inn total sub)
    (hlen : answers.length + subs.length ≤ total) :
    ∃ r k calls, pollBlocking poll out subs remaining s polls = (r, k) ∧ r.slept = none ∧
      r.polls = polls ++ calls ∧ (r.errno = .success →
        Answered before inn out total (answers ++ deferredAnswers subs calls)
          { mem := r.mem, nevents := k } ∧
        (answers ++ deferredAnswers subs calls).length ≤ total) := by
  induction subs generalizing answers s remaining polls with
  | nil =>
    refine ⟨_, _, [], rfl, rfl, (append_nil _).symm, fun _ => ?_⟩
    rw [deferredAnswers, append_nil]
    exact ⟨⟨h.output, h.nevents, h.addresses⟩, hlen⟩
  | cons sub subs ih =>
    have hsub := hsubs sub (by simp)
    have hrest : ∀ sub ∈ subs, Deferred before inn total sub :=
      fun sub' hmem => hsubs sub' (by simp [hmem])
    rw [length_cons] at hlen
    have hwrite : ∀ errno, Answered before inn out total (answers ++ [(sub.evt.userData, errno)])
        (s.write out { sub.evt with errno }) := by
      intro errno
      have hw := h.write hr (by omega) hsub.address errno
      rw [hsub.evt]
      exact hw
    cases hpollable : sub.file.pollable with
    | false =>
      rw [pollBlocking_cons_of_not_pollable hpollable]
      obtain ⟨r, k, calls, hresult, hslept, hpolls, hanswered⟩ := ih (hwrite errnoNotsup) hrest
        (by rw [length_append, length_singleton]; omega)
      refine ⟨r, k, calls, hresult, hslept, hpolls, fun hs => ?_⟩
      rw [deferredAnswers_cons_of_not_pollable hpollable, ← append_assoc]
      exact hanswered hs
    | true =>
      obtain ⟨a, ha⟩ : ∃ a, poll polls sub.fd (pollMillis remaining) = a := ⟨_, rfl⟩
      obtain hnext | ⟨herr, hstop⟩ :=
        @pollBlocking_cons_of_pollable out s poll sub subs remaining polls hpollable a ha
      · have hstate : Answered before inn out total
            (answers ++ (a.event.map fun errno => (sub.evt.userData, errno)).toList)
            (s.answer out sub.evt a) := by
          unfold Polling.answer
          cases a.event with
          | none =>
            rw [map_none, toList_none, append_nil]
            exact h
          | some errno => exact hwrite errno
        have hlength : (a.event.map fun errno =>
            (sub.evt.userData, errno)).toList.length ≤ 1 := by
          cases a.event <;> simp
        rw [hnext]
        obtain ⟨r, k, calls, hresult, hslept, hpolls, hanswered⟩ := ih hstate hrest
          (by rw [length_append]; omega)
        refine ⟨r, k, _ :: calls, hresult, hslept, hpolls.trans (append_assoc ..), fun hs => ?_⟩
        rw [deferredAnswers_cons_of_pollable hpollable, ← append_assoc]
        exact hanswered hs
      · rw [hstop]
        exact ⟨_, _, [⟨sub.fd, pollMillis remaining, a⟩], rfl, rfl, rfl, fun hs => absurd hs herr⟩

end

end

end Andsifr.Wasi
