import Andsifr.Wasi.PollEvents

namespace Andsifr.Wasi

open Lib Wasm Sys MemoryInstance List Check Int

/-- A poll waits no longer than its timeout. A negative timeout is none. -/
def Obeys (poll : List PollCall → UInt32 → Int → PollAnswer) : Prop :=
  ∀ polls fd ms, 0 ≤ ms → (poll polls fd ms).elapsed ≤ ms * 1000000

def pollTime (polls : List PollCall) : Nat := (polls.map fun call => call.answer.elapsed).sum

def PollResult.waited (r : PollResult) : Nat := (r.slept.getD 0).toNat + pollTime r.polls

/-- The arguments of a call: there are subscriptions, and they, the events and the count are inside
the memory and do not overlap. -/
structure PollArguments (mem : MemoryInstance) (inn out nsubscriptions resultNevents : UInt32) :
    Prop where
  len : mem.buffer.len ≤ 2 ^ 32
  pos : 0 < nsubscriptions.toNat
  subscriptions : inn.toNat + 48 * nsubscriptions.toNat ≤ mem.buffer.len
  events : out.toNat + 32 * nsubscriptions.toNat ≤ mem.buffer.len
  count : resultNevents.toNat + 4 ≤ mem.buffer.len
  disjoint : inn.toNat + 48 * nsubscriptions.toNat ≤ out.toNat ∨
    out.toNat + 32 * nsubscriptions.toNat ≤ inn.toNat
  count_subscriptions : resultNevents.toNat + 4 ≤ inn.toNat ∨
    inn.toNat + 48 * nsubscriptions.toNat ≤ resultNevents.toNat
  count_events : resultNevents.toNat + 4 ≤ out.toNat ∨
    out.toNat + 32 * nsubscriptions.toNat ≤ resultNevents.toNat

/-- The subscriptions and the events do not end at 4 GiB. -/
structure PollEnds (inn out nsubscriptions : UInt32) : Prop where
  subscriptions : inn.toNat + 48 * nsubscriptions.toNat < 2 ^ 32
  events : out.toNat + 32 * nsubscriptions.toNat < 2 ^ 32

section

variable (lookupFile : UInt32 → Option PollFile) (mem : MemoryInstance)
  (inn out nsubscriptions resultNevents : UInt32)

def subscriptionAddresses : List Nat := addresses inn.toNat nsubscriptions.toNat

/-- What a call has to do. If it succeeds, then the events of the subscriptions that were answered
at once and those that the polls have answered stand one after the other, and their number is
reported. It waits no longer than any relative timeout, and does not sleep if no timeout is given
and every subscription is answered at once. -/
structure PollCorrect (r : PollResult) : Prop where
  events : r.errno = .success → ∃ answers : List (Nat × UInt8),
    answers = (subscriptionAddresses inn nsubscriptions).filterMap (answerAt lookupFile mem) ++
      deferredAnswers
        ((subscriptionAddresses inn nsubscriptions).filterMap (blockingAt lookupFile mem)) r.polls ∧
    r.mem.buffer.extract out.toNat (32 * answers.length) = eventsBytes mem answers ∧
    numberAt r.mem resultNevents.toNat 4 = answers.length
  waits : ∀ timeout ∈ (subscriptionAddresses inn nsubscriptions).filterMap (clockAt lookupFile mem),
    r.waited ≤ timeout.toNat
  sleeps : (∀ address ∈ subscriptionAddresses inn nsubscriptions, ∃ errno,
    subscriptionAt lookupFile mem address = .immediate errno) → r.slept = none

/-- When a call does what it has to do, if every subscription is supported: there is a timeout or a
subscription that is not answered at once, and if there is a file to be polled, then the
milliseconds that the smallest timeout is turned into are neither negative nor more than a
timeout. -/
structure PollTimely : Prop where
  sleeps : ¬ ∀ address ∈ subscriptionAddresses inn nsubscriptions, ∃ errno,
    subscriptionAt lookupFile mem address = .immediate errno
  waits : (∀ address ∈ subscriptionAddresses inn nsubscriptions, Supported lookupFile mem address) →
    (∃ sub ∈ (subscriptionAddresses inn nsubscriptions).filterMap (blockingAt lookupFile mem),
      sub.file.pollable = true) →
    ∀ timeouts,
      timeouts = (subscriptionAddresses inn nsubscriptions).filterMap (clockAt lookupFile mem) →
      ∀ timeout ∈ timeouts, 0 ≤ pollMillis (smallest timeouts) ∧
        pollMillis (smallest timeouts) * 1000000 ≤ timeout.toNat

end

section

variable {poll : List PollCall → UInt32 → Int → PollAnswer} {subs : List BlockingSub}
  {remaining : Int} {polls : List PollCall} {out : Nat} {s : Polling}

theorem pollMillis_of_nonneg (h : 0 ≤ remaining) :
    0 ≤ pollMillis remaining ∧ pollMillis remaining * 1000000 ≤ remaining := by
  unfold pollMillis
  rw [tdiv_eq_ediv_of_nonneg h]
  have hbmod : ∀ ms : Int, 0 ≤ ms → ms ≤ 2 ^ 31 - 1 → Int.bmod ms (2 ^ 32) = ms := by
    intro ms h0 h1
    exact bmod_eq_of_le (by omega) (by omega)
  dsimp only
  split
  next hlarge =>
    rw [hbmod _ (by omega) (by omega)]
    omega
  next hsmall =>
    rw [hbmod _ (by omega) (by omega)]
    omega

theorem pollTime_append {fd : UInt32} {ms : Int} {a : PollAnswer} :
    pollTime (polls ++ [⟨fd, ms, a⟩]) = pollTime polls + a.elapsed := by
  simp [pollTime]

theorem pollTime_cons_le {sub : BlockingSub} {a : PollAnswer} {bound : Int}
    (hpollable : sub.file.pollable = true)
    (ha : poll polls sub.fd (pollMillis remaining) = a) (hstop : pollTime polls + a.elapsed ≤ bound)
    (hnext : ∀ s, pollTime (pollBlocking poll out subs (remainingAfter remaining a.elapsed) s
      (polls ++ [⟨sub.fd, pollMillis remaining, a⟩])).1.polls ≤ bound) :
    pollTime (pollBlocking poll out (sub :: subs) remaining s polls).1.polls ≤ bound := by
  obtain heq | ⟨-, heq⟩ := @pollBlocking_cons_of_pollable out s poll sub subs remaining polls
    hpollable a ha
  · rw [heq]
    exact hnext _
  · rw [heq, pollTime_append]
    exact hstop

/-- With a negative duration, only the first poll can take time. -/
theorem pollTime_le (hobeys : Obeys poll) (hms : 0 ≤ pollMillis remaining) :
    pollTime (pollBlocking poll out subs remaining s polls).1.polls ≤
      pollTime polls + max remaining (pollMillis remaining * 1000000) := by
  induction subs generalizing remaining s polls with
  | nil =>
    simp only [pollBlocking]
    omega
  | cons sub subs ih =>
    cases hpollable : sub.file.pollable with
    | false =>
      rw [pollBlocking_cons_of_not_pollable hpollable]
      exact ih hms
    | true =>
      obtain ⟨a, ha⟩ : ∃ a, poll polls sub.fd (pollMillis remaining) = a := ⟨_, rfl⟩
      have helapsed := ha ▸ hobeys polls sub.fd _ hms
      refine pollTime_cons_le hpollable ha (by omega) fun s => ?_
      have hrest : 0 ≤ remainingAfter remaining a.elapsed ∧
          remainingAfter remaining a.elapsed + a.elapsed ≤
            max remaining (pollMillis remaining * 1000000) := by
        unfold remainingAfter
        split <;> omega
      obtain ⟨hms', hle⟩ := pollMillis_of_nonneg hrest.1
      refine (ih hms').trans ?_
      rw [pollTime_append, max_eq_left hle]
      omega

end

section

variable {lookupFile : UInt32 → Option PollFile} {mem : MemoryInstance}
  {inn out n resultNevents : UInt32}

/-- The memory in which the events are written: they are cleared, and the count is that of the
subscriptions. -/
def clearedMemory (mem : MemoryInstance) (out nsubscriptions resultNevents : UInt32) :
    MemoryInstance :=
  (mem.store out.toNat (replicate (nsubscriptions * 32).toNat 0)).store resultNevents.toNat
    (leBytes 4 nsubscriptions.toNat)

variable {address : Nat} {answers : List (Nat × UInt8)}

namespace PollArguments

theorem bounds_of_mem (ha : address ∈ subscriptionAddresses inn n) :
    inn.toNat ≤ address ∧ address + 48 ≤ inn.toNat + 48 * n.toNat := by
  obtain ⟨i, hi, rfl⟩ := mem_addresses.1 ha
  omega

theorem mem_subscriptionAddresses {k : Nat} (hk : k < n.toNat) :
    inn.toNat + 48 * k ∈ subscriptionAddresses inn n :=
  mem_addresses.2 ⟨k, hk, rfl⟩

variable (h : PollArguments mem inn out n resultNevents)

abbrev cleared (_ : PollArguments mem inn out n resultNevents) : MemoryInstance :=
  clearedMemory mem out n resultNevents

include h

theorem len_cleared : h.cleared.buffer.len = mem.buffer.len := len_store.trans len_store

theorem sizes : (n * 48).toNat = 48 * n.toNat ∧ (n * 32).toNat = 32 * n.toNat := by
  have hlen := h.len
  have h48 := h.subscriptions
  rw [UInt32.toNat_mul, UInt32.toNat_mul]
  simp only [UInt32.reduceToNat]
  omega

theorem regions : Regions h.cleared inn.toNat out.toNat n.toNat where
  subscriptions := h.subscriptions.trans_eq h.len_cleared.symm
  events := h.events.trans_eq h.len_cleared.symm
  disjoint := h.disjoint

theorem extract_cleared {i m : Nat} (hi : inn.toNat ≤ i) (hm : i + m ≤ inn.toNat + 48 * n.toNat) :
    h.cleared.buffer.extract i m = mem.buffer.extract i m := by
  have h32 := h.sizes.2
  obtain ⟨len, pos, subscriptions, events, count, disjoint, countIn, countOut⟩ := h
  rw [cleared, clearedMemory, extract_store_of_disjoint
      (by rw [length_leBytes]; exact count) (by rw [length_leBytes]; omega),
    extract_store_of_disjoint (by rw [length_replicate]; omega) (by rw [length_replicate]; omega)]

theorem output_cleared : Output h.cleared out.toNat n.toNat [] h.cleared := by
  refine ⟨rfl, fun j => ?_⟩
  have h32 := h.sizes.2
  obtain ⟨len, pos, subscriptions, events, count, disjoint, countIn, countOut⟩ := h
  split
  next hj =>
    have hzero : (mem.store out.toNat (replicate (n * 32).toNat 0)).byteAt j = 0 := by
      rw [byteAt_store (by rw [length_replicate]; omega), if_pos hj.1,
        getElem?_replicate, if_pos (by omega)]
      rfl
    rw [cleared, clearedMemory, byteAt_store (by rw [length_leBytes]; exact count), hzero]
    split
    next hle =>
      rw [getElem?_eq_none (by rw [length_leBytes]; omega)]
      rfl
    next => rfl
  next => rfl

theorem eventTypeAt_cleared (hlow : inn.toNat ≤ address)
    (hhigh : address + 48 ≤ inn.toNat + 48 * n.toNat) :
    eventTypeAt h.cleared address = eventTypeAt mem address :=
  eventTypeAt_congr fun _ _ _ => h.extract_cleared (by omega) (by omega)

theorem subscriptionAt_cleared (hlow : inn.toNat ≤ address)
    (hhigh : address + 48 ≤ inn.toNat + 48 * n.toNat) :
    subscriptionAt lookupFile h.cleared address = subscriptionAt lookupFile mem address :=
  subscriptionAt_congr fun _ _ _ => h.extract_cleared (by omega) (by omega)

theorem filterMap_cleared : (subscriptionAddresses inn n).filterMap
        (answerAt lookupFile h.cleared) =
      (subscriptionAddresses inn n).filterMap (answerAt lookupFile mem) ∧
    (subscriptionAddresses inn n).filterMap (clockAt lookupFile h.cleared) =
      (subscriptionAddresses inn n).filterMap (clockAt lookupFile mem) ∧
    (subscriptionAddresses inn n).filterMap (blockingAt lookupFile h.cleared) =
      (subscriptionAddresses inn n).filterMap (blockingAt lookupFile mem) := by
  refine ⟨?_, ?_, ?_⟩ <;> refine filterMap_congr fun address ha => ?_ <;>
    obtain ⟨hlow, hhigh⟩ := bounds_of_mem ha
  · rw [answerAt, answerAt, h.subscriptionAt_cleared hlow hhigh]
  · rw [clockAt, clockAt, h.subscriptionAt_cleared hlow hhigh]
  · rw [blockingAt, blockingAt, h.subscriptionAt_cleared hlow hhigh,
      h.eventTypeAt_cleared hlow hhigh]

theorem eventsBytes_cleared
    (ha : ∀ a ∈ answers, inn.toNat ≤ a.1 ∧ a.1 + 48 ≤ inn.toNat + 48 * n.toNat) :
    eventsBytes h.cleared answers = eventsBytes mem answers := by
  unfold eventsBytes
  rw [flatMap_congr fun a hmem => ?_]
  obtain ⟨hlow, hhigh⟩ := ha a hmem
  rw [eventBytes, eventBytes, h.eventTypeAt_cleared hlow hhigh, h.extract_cleared hlow (by omega)]

theorem pollOneoff_eq (hends : PollEnds inn out n) (host : PollHost) :
    pollOneoff host mem inn out n resultNevents = do
      let (s, errno) := pollSubscriptions host.lookupFile out.toNat n.toNat inn.toNat
        { mem := h.cleared }
      if errno ≠ .success then return ⟨errno, s.mem, none, []⟩
      if s.nevents = n.toNat then
        return ⟨.success, s.mem, if 0 < s.timeout then some s.timeout else none, []⟩
      let (r, nevents) := pollBlocking host.poll out.toNat s.blockingPollSubs s.timeout s []
      if r.errno = .success ∧ nevents ≠ n.toNat then
        let (ok, mem) ← r.mem.writeUint32Le resultNevents (.ofNat nevents)
        return { r with errno := if ok then .success else .EFAULT, mem }
      return r := by
  obtain ⟨h48, h32⟩ := h.sizes
  obtain ⟨hsub, hev⟩ := hends
  obtain ⟨len, pos, subscriptions, events, count, -, -, -⟩ := h
  have hzero : n ≠ 0 := by
    rintro rfl
    simp at pos
  rw [pollOneoff, if_neg hzero, if_neg (by omega), read_eq len (by omega),
    if_pos (by omega), bind_ok]
  rw [read_eq len (by omega), if_pos (by omega)]
  simp only [Bool.not_true, Bool.false_eq_true, if_false]
  rw [writeUint32Le, writeUintLe_eq (by rw [len_store]; exact len) _ (by decide) (by decide),
    if_pos (by rw [len_store]; exact count), bind_ok]
  rfl

theorem reported {s : Polling} (ha : Answered h.cleared inn.toNat out.toNat
      n.toNat answers s) (hlen : answers.length ≤ n.toNat) :
    s.mem.buffer.extract out.toNat (32 * answers.length) = eventsBytes mem answers ∧
      numberAt s.mem resultNevents.toNat 4 = n.toNat := by
  have hlength := @length_eventsBytes h.cleared answers fun a hmem => by
      have haddress := ha.addresses a hmem
      have hsubs := h.regions.subscriptions
      omega
  have hextract := ha.output.extract_bytes h.regions.events (by omega)
  rw [hlength, h.eventsBytes_cleared ha.addresses] at hextract
  refine ⟨hextract, ?_⟩
  have hcount := h.count
  rw [numberAt, ha.output.extract_eq (by rw [h.len_cleared]; exact hcount) h.count_events]
  exact numberAt_store (by rwa [len_store]) n.toNat_lt

theorem reported_store {s : Polling} (ha : Answered h.cleared inn.toNat out.toNat
      n.toNat answers s) (hlen : answers.length ≤ n.toNat)
    {m : MemoryInstance} (hm : m = s.mem.store resultNevents.toNat (leBytes 4 answers.length)) :
    m.buffer.extract out.toNat (32 * answers.length) = eventsBytes mem answers ∧
      numberAt m resultNevents.toNat 4 = answers.length := by
  have hlens : s.mem.buffer.len = mem.buffer.len := ha.output.1.trans h.len_cleared
  have hcount := h.count
  have hevents := h.events
  have hdisjoint := h.count_events
  subst hm
  constructor
  · rw [extract_store_of_disjoint (by rw [length_leBytes]; omega) (by rw [length_leBytes]; omega)]
    exact (h.reported ha hlen).1
  · exact numberAt_store (by omega) (hlen.trans_lt n.toNat_lt)

theorem supported_cleared (ha : address ∈ subscriptionAddresses inn n) :
    Supported lookupFile h.cleared address ↔ Supported lookupFile mem address := by
  obtain ⟨hlow, hhigh⟩ := bounds_of_mem ha
  rw [Supported, Supported, h.subscriptionAt_cleared hlow hhigh]

/-- What a call comes to: an error for a subscription that is not supported, a sleep if every
subscription is answered at once, and the polls otherwise. -/
theorem pollOneoff_cases (hends : PollEnds inn out n) (host : PollHost)
    {subs : List BlockingSub} {d : Int}
    (hanswers : answers = (subscriptionAddresses inn n).filterMap (answerAt host.lookupFile mem))
    (hsubs : subs = (subscriptionAddresses inn n).filterMap (blockingAt host.lookupFile mem))
    (hd : d = smallest ((subscriptionAddresses inn n).filterMap (clockAt host.lookupFile mem))) :
    (∃ r, pollOneoff host mem inn out n resultNevents = .ok r ∧ r.errno ≠ .success ∧
      r.slept = none ∧ r.polls = [] ∧ ∃ address ∈ subscriptionAddresses inn n,
        ¬ Supported host.lookupFile mem address) ∨
    (subs = [] ∧ ∃ m, pollOneoff host mem inn out n resultNevents =
        .ok ⟨.success, m, if 0 < d then some d else none, []⟩ ∧
      m.buffer.extract out.toNat (32 * answers.length) = eventsBytes mem answers ∧
      numberAt m resultNevents.toNat 4 = answers.length) ∨
    (subs ≠ [] ∧ (∀ address ∈ subscriptionAddresses inn n,
        Supported host.lookupFile mem address) ∧
          ∃ s r, pollOneoff host mem inn out n resultNevents = .ok r ∧
      r.slept = none ∧ r.polls = (pollBlocking host.poll out.toNat subs d s []).1.polls ∧
      (r.errno = .success → ∃ all, all = answers ++ deferredAnswers subs r.polls ∧
        r.mem.buffer.extract out.toNat (32 * all.length) = eventsBytes mem all ∧
        numberAt r.mem resultNevents.toNat 4 = all.length)) := by
  rw [h.pollOneoff_eq hends host]
  obtain ⟨hanswer, hclock, hblocking⟩ := @filterMap_cleared host.lookupFile mem _ _ _ _ h
  have hstart : FirstPass host.lookupFile h.cleared inn.toNat out.toNat n.toNat 0
      { mem := h.cleared } :=
    ⟨⟨h.output_cleared, rfl, fun a ha => by cases ha⟩, rfl, rfl⟩
  obtain ⟨s, hrun, hall, hs, htimeout, hsubs'⟩ | ⟨s, errno, hrun, herr, k, hk, hunsupported⟩ :=
    hstart.run h.regions (zero_add n.toNat)
  · have hall : ∀ address ∈ subscriptionAddresses inn n, Supported host.lookupFile mem address := by
      intro address ha
      rw [← h.supported_cleared ha]
      obtain ⟨k, hk, rfl⟩ := mem_addresses.1 ha
      exact hall k (Nat.zero_le k) hk
    have hlength : answers.length + subs.length = n.toNat := by
      rw [hanswers, hsubs]
      exact length_answers_add_blocking fun k hk => hall _ (mem_subscriptionAddresses hk)
    rw [subscriptionAddresses] at hanswer hclock hblocking
    rw [hanswer, ← subscriptionAddresses, ← hanswers] at hs
    rw [hblocking, ← subscriptionAddresses, ← hsubs] at hsubs'
    rw [hclock, ← subscriptionAddresses, ← hd] at htimeout
    have hrep := h.reported hs (by omega)
    simp only [mul_zero, add_zero] at hrun
    simp only [hrun, ne_eq, not_true_eq_false, if_false, hs.nevents, hsubs', htimeout]
    by_cases hnil : subs = []
    · subst hnil
      rw [length_nil, add_zero] at hlength
      rw [if_pos hlength]
      exact .inr (.inl ⟨rfl, s.mem, rfl, hrep.1, hrep.2.trans hlength.symm⟩)
    have hpos := length_pos_iff.2 hnil
    rw [if_neg (by omega)]
    have hdeferred : ∀ sub ∈ subs, Deferred h.cleared inn.toNat n.toNat sub := by
      intro sub hmem
      rw [hsubs, subscriptionAddresses, ← hblocking] at hmem
      exact deferred_of_mem hmem
    obtain ⟨r, k, calls, hresult, hslept, hpolls, hanswered⟩ :=
      @Answered.pollBlocking out.toNat s _ _ inn.toNat answers host.poll subs d [] h.regions hs
        hdeferred hlength.le
    rw [nil_append] at hpolls
    refine .inr (.inr ⟨hnil, hall, s, ?_⟩)
    rw [hresult]
    by_cases hwrite : r.errno = .success ∧ k ≠ n.toNat
    · obtain ⟨ha, hle⟩ := hanswered hwrite.1
      rw [← hpolls] at ha hle
      have hlens : r.mem.buffer.len = mem.buffer.len := ha.output.1.trans h.len_cleared
      have hk : (UInt32.ofNat k).toNat = (answers ++ deferredAnswers subs r.polls).length := by
        rw [← ha.nevents]
        exact Nat.mod_eq_of_lt (ha.nevents.trans_le hle |>.trans_lt n.toNat_lt)
      rw [if_pos hwrite, writeUint32Le, writeUintLe_eq
        (by rw [hlens]; exact h.len) _ (by decide) (by decide),
        if_pos (by rw [hlens]; exact h.count), bind_ok]
      refine ⟨_, rfl, hslept, rfl, fun _ => ⟨_, rfl, ?_⟩⟩
      exact h.reported_store ha hle (by simp only [hk])
    · rw [if_neg hwrite]
      refine ⟨r, rfl, hslept, rfl, fun hsuccess => ⟨_, rfl, ?_⟩⟩
      obtain ⟨ha, hle⟩ := hanswered hsuccess
      rw [← hpolls] at ha hle
      have hk : k = n.toNat := Decidable.of_not_not fun hk => hwrite ⟨hsuccess, hk⟩
      obtain ⟨hextract, hnumber⟩ := h.reported ha hle
      exact ⟨hextract, hnumber.trans (hk.symm.trans ha.nevents)⟩
  · rw [h.supported_cleared (mem_subscriptionAddresses hk)] at hunsupported
    refine .inl ⟨⟨errno, s.mem, none, []⟩, ?_, herr, rfl, rfl, _, mem_subscriptionAddresses hk,
      hunsupported⟩
    simp only [mul_zero, add_zero] at hrun
    simp only [hrun]
    rw [if_pos herr]
    rfl

end PollArguments

theorem foldl_duration_le {timeouts : List UInt64} {d : Int} :
    timeouts.foldl (fun d timeout => min d (duration timeout)) d ≤ d ∧ ∀ timeout ∈ timeouts,
      timeouts.foldl (fun d timeout => min d (duration timeout)) d ≤ duration timeout := by
  induction timeouts generalizing d with
  | nil => exact ⟨le_refl d, fun _ hmem => by cases hmem⟩
  | cons t timeouts ih =>
    obtain ⟨hd, hall⟩ := @ih (min d (duration t))
    refine ⟨hd.trans (min_le_left ..), fun timeout hmem => ?_⟩
    obtain rfl | hmem := mem_cons.1 hmem
    · exact hd.trans (min_le_right ..)
    · exact hall timeout hmem

theorem duration_le (timeout : UInt64) : duration timeout ≤ timeout.toNat := by
  unfold duration
  split <;> omega

theorem smallest_le_toNat {timeouts : List UInt64} {timeout : UInt64} (h : timeout ∈ timeouts) :
    smallest timeouts ≤ timeout.toNat :=
  (foldl_duration_le.2 timeout h).trans (duration_le timeout)

variable {subs : List BlockingSub} {out : Nat} {s : Polling}

theorem pollTime_le_pollBlocking {poll : List PollCall → UInt32 → Int → PollAnswer}
    {remaining : Int} {polls : List PollCall} :
    pollTime polls ≤ pollTime (pollBlocking poll out subs remaining s polls).1.polls := by
  induction subs generalizing remaining s polls with
  | nil => exact le_refl _
  | cons sub subs ih =>
    cases hpollable : sub.file.pollable with
    | false =>
      rw [pollBlocking_cons_of_not_pollable hpollable]
      exact ih
    | true =>
      obtain ⟨a, ha⟩ : ∃ a, poll polls sub.fd (pollMillis remaining) = a := ⟨_, rfl⟩
      have hmore : pollTime polls ≤ pollTime (polls ++ [⟨sub.fd, pollMillis remaining, a⟩]) := by
        simp [pollTime]
      obtain hnext | ⟨-, hstop⟩ :=
        @pollBlocking_cons_of_pollable out s poll sub subs remaining polls hpollable a ha
      · rw [hnext]
        exact hmore.trans ih
      · rw [hstop]
        exact hmore

theorem pollTime_of_not_pollable {poll : List PollCall → UInt32 → Int → PollAnswer}
    {remaining : Int} {polls : List PollCall}
    (h : ∀ sub ∈ subs, sub.file.pollable = false) :
    pollTime (pollBlocking poll out subs remaining s polls).1.polls = pollTime polls := by
  induction subs generalizing s with
  | nil => rfl
  | cons sub subs ih =>
    rw [pollBlocking_cons_of_not_pollable (h sub (by simp))]
    exact ih fun sub' hmem => h sub' (by simp [hmem])

/-- Files that are never ready, and of which the first to be polled takes its timeout, or longer
than `nanos` if that is negative. -/
def neverReady (nanos : Nat) (polls : List PollCall) (_fd : UInt32) (ms : Int) : PollAnswer :=
  ⟨false, .success, if polls = [] then if 0 ≤ ms then (ms * 1000000).toNat else nanos + 1 else 0⟩

theorem obeys_neverReady (nanos : Nat) : Obeys (neverReady nanos) := by
  intro polls fd ms hms
  unfold neverReady
  dsimp only
  split
  next => omega
  next => omega

theorem pollTime_neverReady {nanos : Nat} {d : Int} (h : ∃ sub ∈ subs, sub.file.pollable = true)
    (hle : pollTime (pollBlocking (neverReady nanos) out subs d s []).1.polls ≤ nanos) :
    0 ≤ pollMillis d ∧ pollMillis d * 1000000 ≤ nanos := by
  induction subs generalizing s with
  | nil =>
    obtain ⟨sub, hmem, -⟩ := h
    cases hmem
  | cons sub subs ih =>
    cases hpollable : sub.file.pollable with
    | false =>
      rw [pollBlocking_cons_of_not_pollable hpollable] at hle
      refine ih ?_ hle
      obtain ⟨sub', hmem, hpollable'⟩ := h
      obtain rfl | hmem := mem_cons.1 hmem
      · rw [hpollable] at hpollable'
        cases hpollable'
      · exact ⟨sub', hmem, hpollable'⟩
    | true =>
      have hfirst : pollTime ([] ++ [⟨sub.fd, pollMillis d,
          neverReady nanos [] sub.fd (pollMillis d)⟩]) ≤ nanos := by
        obtain hnext | ⟨herr, -⟩ := @pollBlocking_cons_of_pollable out s (neverReady nanos) sub
          subs d [] hpollable _ rfl
        · rw [hnext] at hle
          exact pollTime_le_pollBlocking.trans hle
        · exact absurd rfl herr
      simp only [pollTime, neverReady, nil_append, map_cons, map_nil,
        sum_singleton, if_true] at hfirst
      split at hfirst
      next hms => exact ⟨hms, by omega⟩
      next => omega

section

variable {lookupFile : UInt32 → Option PollFile} {mem : MemoryInstance}
  {inn out nsubscriptions resultNevents : UInt32}

/-- If every subscription is answered at once, then there is neither a timeout nor a file to be
polled. -/
theorem filterMap_of_immediate (h : ∀ address ∈ subscriptionAddresses inn nsubscriptions, ∃ errno,
      subscriptionAt lookupFile mem address = .immediate errno) :
    (subscriptionAddresses inn nsubscriptions).filterMap (clockAt lookupFile mem) = [] ∧
      (subscriptionAddresses inn nsubscriptions).filterMap (blockingAt lookupFile mem) = [] := by
  constructor <;> refine filterMap_eq_nil_iff.2 fun address hmem => ?_ <;>
    obtain ⟨errno, heq⟩ := h address hmem
  · rw [clockAt, heq]
  · rw [blockingAt, heq]

section

variable (h : PollArguments mem inn out nsubscriptions resultNevents)

include h

theorem pollCorrect_of_timely (hends : PollEnds inn out nsubscriptions)
    (ht : PollTimely lookupFile mem inn nsubscriptions)
    {poll : List PollCall → UInt32 → Int → PollAnswer} (hobeys : Obeys poll) :
    ∃ r, pollOneoff ⟨lookupFile, poll⟩ mem inn out nsubscriptions resultNevents = .ok r ∧
      PollCorrect lookupFile mem inn out nsubscriptions resultNevents r := by
  obtain ⟨r, hr, herr, hslept, hpolls, -⟩ | ⟨hnil, m, hr, hevents, hnumber⟩ |
    ⟨-, hall, s, r, hr, hslept, hpolls, hevents⟩ :=
    h.pollOneoff_cases hends ⟨lookupFile, poll⟩ rfl rfl rfl
  · refine ⟨r, hr, fun hs => absurd hs herr, fun timeout _ => ?_, fun _ => hslept⟩
    simp [PollResult.waited, hslept, hpolls, pollTime]
  · refine ⟨_, hr, fun _ => ⟨_, rfl, ?_, ?_⟩, fun timeout hmem => ?_,
      fun himm => absurd himm ht.sleeps⟩
    · rw [hnil, deferredAnswers, append_nil]
      exact hevents
    · rw [hnil, deferredAnswers, append_nil]
      exact hnumber
    · have hle := smallest_le_toNat hmem
      split
      next =>
        exact toNat_le.2 hle
      next => exact Nat.zero_le _
  · refine ⟨r, hr, hevents, fun timeout hmem => ?_, fun _ => hslept⟩
    have hle := smallest_le_toNat hmem
    simp only [PollResult.waited, hslept, hpolls, Option.getD_none, toNat_zero, zero_add]
    by_cases hpollable : ∃ sub ∈ (subscriptionAddresses inn nsubscriptions).filterMap
        (blockingAt lookupFile mem), sub.file.pollable = true
    · obtain ⟨hms, hmillis⟩ := ht.waits hall hpollable _ rfl timeout hmem
      have htime := @pollTime_le poll
        ((subscriptionAddresses inn nsubscriptions).filterMap (blockingAt lookupFile mem)) _ []
        out.toNat s hobeys hms
      exact ofNat_le.1 ((htime.trans_eq (zero_add _)).trans (max_le hle hmillis))
    · rw [pollTime_of_not_pollable fun sub hmem =>
        Bool.eq_false_iff.2 fun htrue => hpollable ⟨sub, hmem, htrue⟩]
      exact Nat.zero_le _

/-- Where the subscriptions or the events end at 4 GiB, the slice of them panics. -/
theorem PollArguments.ends {host : PollHost} {r : PollResult}
    (hok : pollOneoff host mem inn out nsubscriptions resultNevents = .ok r) :
    PollEnds inn out nsubscriptions := by
  have hlen := h.len
  obtain ⟨h48, h32⟩ := h.sizes
  have hnot {offset byteCount : UInt32} {x : List UInt8 × Bool}
      (hin : offset.toNat + byteCount.toNat ≤ mem.buffer.len)
      (hread : mem.read offset byteCount = .ok x) : offset.toNat + byteCount.toNat < 2 ^ 32 := by
    by_contra hge
    have hfull : mem.buffer.len = 2 ^ 32 := by omega
    have hend : offset.toNat + byteCount.toNat = 2 ^ 32 := by omega
    obtain ⟨c, hcrash⟩ := crashes_read hfull hend
    rw [hcrash] at hread
    cases hread
  have hzero : nsubscriptions ≠ 0 := by
    rintro rfl
    exact absurd h.pos (by decide)
  have hsubscriptions := h.subscriptions
  have hevents := h.events
  rw [pollOneoff, if_neg hzero, if_neg (by omega)] at hok
  obtain ⟨⟨_, ok⟩, hread, hok⟩ := bind_inv hok
  have hsub := hnot (h48.symm ▸ hsubscriptions) hread
  rw [read_eq hlen (by omega), if_pos (by omega)] at hread
  cases hread
  obtain ⟨⟨_, ok⟩, hread, -⟩ := bind_inv hok
  have hev := hnot (h32.symm ▸ hevents) hread
  exact ⟨by omega, by omega⟩

theorem timely_of_pollCorrect (hends : PollEnds inn out nsubscriptions)
    (hcorrect : ∀ poll, Obeys poll →
      ∃ r, pollOneoff ⟨lookupFile, poll⟩ mem inn out nsubscriptions resultNevents = .ok r ∧
        PollCorrect lookupFile mem inn out nsubscriptions resultNevents r) :
    PollTimely lookupFile mem inn nsubscriptions := by
  have hhost := fun nanos => h.pollOneoff_cases hends ⟨lookupFile, neverReady nanos⟩ rfl rfl rfl
  constructor
  · intro himm
    obtain ⟨r, hr, hc⟩ := hcorrect _ (obeys_neverReady 0)
    obtain ⟨hclock, hblocking⟩ := filterMap_of_immediate himm
    obtain ⟨-, -, -, -, -, address, hmem, hunsupported⟩ | ⟨-, m, hr', -⟩ | ⟨hsubs, -⟩ := hhost 0
    · obtain ⟨errno, heq⟩ := himm address hmem
      exact hunsupported fun e he => by simp [heq] at he
    · rw [hr] at hr'
      have hslept := hc.sleeps himm
      cases hr'
      rw [hclock] at hslept
      cases hslept
    · exact hsubs hblocking
  · rintro hall hpollable _ rfl timeout hmem
    obtain ⟨r, hr, hc⟩ := hcorrect _ (obeys_neverReady timeout.toNat)
    obtain ⟨-, -, -, -, -, address, hmem, hunsupported⟩ | ⟨hnil, -⟩ |
      ⟨-, -, s, r', hr', hslept, hpolls, -⟩ := hhost timeout.toNat
    · exact absurd (hall address hmem) hunsupported
    · obtain ⟨sub, hsub, -⟩ := hpollable
      rw [hnil] at hsub
      cases hsub
    · rw [hr] at hr'
      cases hr'
      have hwaited := hc.waits timeout hmem
      rw [PollResult.waited, hslept, hpolls] at hwaited
      simp only [Option.getD_none, toNat_zero, zero_add] at hwaited
      exact pollTime_neverReady hpollable hwaited

end

/-- Whatever the polled files do, a call does what it has to do, and no longer than its timeouts,
exactly if there is a timeout or a subscription that is not answered at once, the timeouts are not
too long for the polls, and nothing ends at 4 GiB. -/
theorem pollOneoff_correct_iff (h : PollArguments mem inn out nsubscriptions resultNevents) :
    (∀ poll, Obeys poll →
      ∃ r, pollOneoff ⟨lookupFile, poll⟩ mem inn out nsubscriptions resultNevents = .ok r ∧
        PollCorrect lookupFile mem inn out nsubscriptions resultNevents r) ↔
      PollTimely lookupFile mem inn nsubscriptions ∧ PollEnds inn out nsubscriptions := by
  constructor
  · intro hcorrect
    obtain ⟨r, hr, -⟩ := hcorrect _ (obeys_neverReady 0)
    exact ⟨timely_of_pollCorrect h (h.ends hr) hcorrect, h.ends hr⟩
  · rintro ⟨ht, hends⟩ poll hobeys
    exact pollCorrect_of_timely h hends ht hobeys

/-- A subscription to a clock, with a relative timeout. -/
def clockSubscription (nanos : Nat) : List UInt8 :=
  replicate 24 0 ++ leBytes 8 nanos ++ replicate 16 0

def fdSubscription (eventType : UInt8) (fd : Nat) : List UInt8 :=
  replicate 8 0 ++ [eventType] ++ replicate 7 0 ++ leBytes 4 fd ++ replicate 28 0

variable {bytes : List UInt8}

theorem pollArguments_page (hbytes : bytes.length ≤ 65536) :
    PollArguments (pageOf bytes) 0 256 1 512 ∧ PollArguments (pageOf bytes) 0 256 3 512 := by
  have hlen := len_pageOf hbytes
  constructor <;> constructor <;> first | decide | (rw [hlen]; decide)

theorem pollEnds_page : PollEnds 0 256 1 ∧ PollEnds 0 256 3 :=
  ⟨⟨by decide, by decide⟩, by decide, by decide⟩

theorem subscriptionAt_pageOf {address : Nat} (h : address + 48 ≤ bytes.length) :
    subscriptionAt lookupFile (pageOf bytes) address =
      subscriptionAt lookupFile ⟨.ofList bytes, 1, 1, false⟩ address :=
  subscriptionAt_congr fun k m hk => by
    rw [extract_pageOf (by omega), Slice.extract, Slice.toList_ofList]

/-- A timeout of a millisecond, a subscription to write, which is answered at once, and one to
read. -/
def mixedSubscriptions : List UInt8 :=
  clockSubscription 1000000 ++ fdSubscription 2 1 ++ fdSubscription 1 0

theorem length_mixedSubscriptions : mixedSubscriptions.length = 144 := by
  simp [mixedSubscriptions, clockSubscription, fdSubscription]

theorem timely_of_clock (hclock : subscriptionAt lookupFile mem 0 = .clock 1000000)
    (hwrite : subscriptionAt lookupFile mem 48 = .immediate errnoNotsup)
    (hread : subscriptionAt lookupFile mem 96 = .blocking 0 ⟨false, true⟩) :
    PollTimely lookupFile mem 0 3 := by
  have haddresses : subscriptionAddresses 0 3 = [0, 48, 96] := by decide
  refine ⟨fun himm => ?_, ?_⟩
  · obtain ⟨errno, heq⟩ := himm 0 (by rw [haddresses]; exact mem_cons_self)
    rw [hclock] at heq
    cases heq
  · intro _ _ timeouts htimeouts timeout hmem
    have hone : timeouts = [1000000] := by
      rw [htimeouts, haddresses]
      simp [clockAt, hclock, hwrite, hread]
    subst hone
    rw [mem_singleton.1 hmem]
    decide

theorem pollOneoff_correct_iff_mixed :
    PollArguments (pageOf mixedSubscriptions) 0 256 3 512 ∧ ∀ poll, Obeys poll → ∃ r,
      pollOneoff ⟨fun _ => some ⟨false, true⟩, poll⟩
      (pageOf mixedSubscriptions) 0 256 3 512 = .ok r ∧
        PollCorrect (fun _ => some ⟨false, true⟩) (pageOf mixedSubscriptions) 0 256 3 512 r := by
  have hargs := (pollArguments_page (length_mixedSubscriptions.trans_le (by decide))).2
  have hsub {address : Nat} (h : address + 48 ≤ 144) :=
    @subscriptionAt_pageOf (fun _ => some ⟨false, true⟩) mixedSubscriptions address
      (by rwa [length_mixedSubscriptions])
  have ht := timely_of_clock ((@hsub 0 (by decide)).trans (by decide +kernel))
    ((@hsub 48 (by decide)).trans (by decide +kernel))
    ((@hsub 96 (by decide)).trans (by decide +kernel))
  exact ⟨hargs, (pollOneoff_correct_iff hargs).2 ⟨ht, pollEnds_page.2⟩⟩

/-- A timeout of a millisecond, one of more than 2⁶³ nanoseconds, and a subscription to read. -/
def longAndShort : List UInt8 :=
  clockSubscription 1000000 ++ clockSubscription (2 ^ 64 - 1000000) ++ fdSubscription 1 0

theorem length_longAndShort : longAndShort.length = 144 := by
  simp [longAndShort, clockSubscription, fdSubscription]

theorem not_timely_of_clocks (hshort : subscriptionAt lookupFile mem 0 = .clock 1000000)
    (hlong : subscriptionAt lookupFile mem 48 = .clock 0xfffffffffff0bdc0)
    (hread : subscriptionAt lookupFile mem 96 = .blocking 0 ⟨false, true⟩) :
    ¬ PollTimely lookupFile mem 0 3 := by
  intro ht
  have haddresses : subscriptionAddresses 0 3 = [0, 48, 96] := by decide
  have hms := ht.waits (by simp [haddresses, Supported, hshort, hlong, hread])
    (by simp [haddresses, blockingAt, hshort, hlong, hread]) [1000000, 0xfffffffffff0bdc0]
    (by simp [haddresses, clockAt, hshort, hlong, hread]) 1000000 (by decide)
  exact absurd hms.1 (by decide)

/-- One subscription to write to a file, and no timeout: the call sleeps. A timeout that is too
long: a file that is not ready is polled without a timeout, although there is another one. -/
theorem pollOneoff_not_correct : (¬ ∀ poll, Obeys poll → ∃ r,
      pollOneoff ⟨fun _ => some ⟨false, true⟩, poll⟩
      (pageOf (fdSubscription 2 1)) 0 256 1 512 = .ok r ∧
        PollCorrect (fun _ => some ⟨false, true⟩) (pageOf (fdSubscription 2 1)) 0 256 1 512 r) ∧
    ¬ ∀ poll, Obeys poll → ∃ r,
      pollOneoff ⟨fun _ => some ⟨false, true⟩, poll⟩ (pageOf longAndShort) 0 256 3 512 = .ok r ∧
        PollCorrect (fun _ => some ⟨false, true⟩) (pageOf longAndShort) 0 256 3 512 r := by
  constructor <;> intro hcorrect
  · have ht := timely_of_pollCorrect (pollArguments_page (by decide)).1 pollEnds_page.1 hcorrect
    refine ht.sleeps fun address hmem => ⟨errnoNotsup, ?_⟩
    obtain rfl : address = 0 := by simpa [subscriptionAddresses, addresses] using hmem
    rw [subscriptionAt_pageOf (by decide)]
    decide
  · have ht := timely_of_pollCorrect
      (pollArguments_page (by rw [length_longAndShort]; decide)).2 pollEnds_page.2 hcorrect
    have hsub {address : Nat} (h : address + 48 ≤ 144) :=
      @subscriptionAt_pageOf (fun _ => some ⟨false, true⟩) longAndShort address
        (by rwa [length_longAndShort])
    exact not_timely_of_clocks ((@hsub 0 (by decide)).trans (by decide +kernel))
      ((@hsub 48 (by decide)).trans (by decide +kernel))
      ((@hsub 96 (by decide)).trans (by decide +kernel)) ht

end

end

end Andsifr.Wasi
