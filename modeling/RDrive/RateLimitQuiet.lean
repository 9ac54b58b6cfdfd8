import RDrive.RateLimit

/-! What the limiter's decisions do not depend on: requests that were refused, and the
clean up of entries that nobody asked for in a long time. -/
namespace RDrive.RateLimit

namespace TokenBucket
variable {b : TokenBucket} {t now : ℚ}

theorem refillTwice (rate : 0 ≤ b.refillRate) (behind : b.lastRefill ≤ t) (later : t ≤ now) :
    (b.refill t).refill now = b.refill now := by
  have first : max 0 (t - b.lastRefill) = t - b.lastRefill := max_eq_right (sub_nonneg.mpr behind)
  have second : max 0 (now - t) = now - t := max_eq_right (sub_nonneg.mpr later)
  have both : max 0 (now - b.lastRefill) = now - b.lastRefill :=
    max_eq_right (sub_nonneg.mpr (behind.trans later))
  have gained : 0 ≤ (now - t) * b.refillRate := mul_nonneg (sub_nonneg.mpr later) rate
  have total : (now - b.lastRefill) * b.refillRate =
      (t - b.lastRefill) * b.refillRate + (now - t) * b.refillRate := by ring
  unfold refill
  simp only [first,second,both,total,mk.injEq,and_true]
  rcases le_total (b.tokens + (t - b.lastRefill) * b.refillRate) b.maxTokens with room | full
  · rw [min_eq_left room,add_assoc]
  · rw [min_eq_right full,min_eq_right (by linarith),min_eq_right (by linarith)]

theorem refillFull (enough : b.maxTokens ≤ b.tokens + max 0 (now - b.lastRefill) * b.refillRate) :
    b.refill now = ⟨b.maxTokens,b.maxTokens,b.refillRate,now⟩ := by
  unfold refill
  simp only [min_eq_right enough]

theorem newFull {maxTokens refillRate created : ℚ} (rate : 0 ≤ refillRate) :
    (init maxTokens refillRate created).refill now = ⟨maxTokens,maxTokens,refillRate,now⟩ :=
  refillFull (le_add_of_nonneg_right (mul_nonneg (le_max_left _ _) rate))

theorem consumeStamps (b : TokenBucket) (cost now : ℚ) : (b.tryConsume cost now).2.lastRefill = now ∧
    (b.tryConsume cost now).2.refillRate = b.refillRate := by
  unfold tryConsume
  simp only []
  split <;> exact ⟨rfl,rfl⟩

theorem refusedRefills {cost : ℚ} (refused : (b.tryConsume cost now).1 = false) :
    (b.tryConsume cost now).2 = b.refill now := by
  unfold tryConsume at refused ⊢
  simp only [] at refused ⊢
  split at refused <;> try contradiction
  rename_i short
  rw [if_neg short]

end TokenBucket

namespace RateLimiter
open TokenBucket (newFull refillTwice refusedRefills)
variable {Ip : Type} {L K : RateLimiter Ip} {a : Arrival Ip} {rest : List (Arrival Ip)}

structure Agree (L K : RateLimiter Ip) (rest : List (Arrival Ip)) : Prop where
  most : L.maxTokens = K.maxTokens
  rate : L.refillRate = K.refillRate
  entry : ∀ a ∈ rest, (L.entry a).refill a.now = (K.entry a).refill a.now

theorem agreeConsume (agree : Agree L K (a :: rest)) (cost : ℚ) :
    (L.entry a).tryConsume cost a.now = (K.entry a).tryConsume cost a.now := by
  unfold TokenBucket.tryConsume
  rw [agree.entry a List.mem_cons_self]

variable [DecidableEq Ip]

theorem decisionHere (L : RateLimiter Ip) (a : Arrival Ip) :
    (L.serve a).1 = ((L.entry a).tryConsume a.request.cost a.now).1 := by
  obtain ⟨request,created,now⟩ := a
  cases request <;> rfl

theorem entryHere {x : Arrival Ip} (same : x.request.ip = a.request.ip) :
    (L.serve a).2.entry x = ((L.entry a).tryConsume a.request.cost a.now).2 := by
  unfold entry
  rw [same,servedHere]
  rfl

theorem entryElsewhere {x : Arrival Ip} (other : x.request.ip ≠ a.request.ip) :
    (L.serve a).2.entry x = L.entry x := by
  obtain ⟨most,rate⟩ := serveParameters L a
  unfold entry
  rw [servedElsewhere other,most,rate]

theorem serveAlike (agree : Agree L K (a :: rest)) : (L.serve a).1 = (K.serve a).1 ∧
    (L.serve a).2.buckets a.request.ip = (K.serve a).2.buckets a.request.ip ∧
    Agree (L.serve a).2 (K.serve a).2 rest := by
  have consumed := agreeConsume agree a.request.cost
  obtain ⟨mostL,rateL⟩ := serveParameters L a
  obtain ⟨mostK,rateK⟩ := serveParameters K a
  refine ⟨by rw [decisionHere,decisionHere,consumed],by rw [servedHere,servedHere,consumed],
    by rw [mostL,mostK,agree.most],by rw [rateL,rateK,agree.rate],?_⟩
  intro x later
  by_cases same : x.request.ip = a.request.ip
  · rw [entryHere same,entryHere same,consumed]
  · rw [entryElsewhere same,entryElsewhere same]
    exact agree.entry x (List.mem_cons_of_mem _ later)

structure Timely (L : RateLimiter Ip) (rest : List (Arrival Ip)) : Prop where
  rate : 0 ≤ L.refillRate
  bucket : ∀ ip b, L.buckets ip = some b → b.refillRate = L.refillRate
  behind : ∀ a ∈ rest, ∀ b, L.buckets a.request.ip = some b → b.lastRefill ≤ a.now

theorem serveTimely (timely : Timely L (a :: rest)) (clocked : Clocked (a :: rest)) :
    Timely (L.serve a).2 rest := by
  obtain ⟨-,rate⟩ := serveParameters L a
  have own : (L.entry a).refillRate = L.refillRate := by
    unfold entry
    cases found : L.buckets a.request.ip with
    | none => rfl
    | some b => exact timely.bucket _ b found
  obtain ⟨stamped,flow⟩ := (L.entry a).consumeStamps a.request.cost a.now
  refine ⟨rate ▸ timely.rate,?_,?_⟩
  · intro ip b found
    rw [rate]
    by_cases mine : ip = a.request.ip
    · rw [mine,servedHere] at found
      cases Option.some.inj found
      exact flow.trans own
    · rw [servedElsewhere mine] at found
      exact timely.bucket ip b found
  · intro x later b found
    by_cases mine : x.request.ip = a.request.ip
    · rw [mine,servedHere] at found
      cases Option.some.inj found
      rw [stamped]
      exact (clockedTail clocked).2 x later mine
    · rw [servedElsewhere mine] at found
      exact timely.behind x (List.mem_cons_of_mem _ later) b found

theorem refusedAlike (agree : Agree L K (a :: rest)) (timely : Timely L (a :: rest))
    (clocked : Clocked (a :: rest)) (refused : (L.serve a).1 = false) : Agree (L.serve a).2 K rest := by
  obtain ⟨most,rate⟩ := serveParameters L a
  rw [decisionHere] at refused
  refine ⟨most.trans agree.most,rate.trans agree.rate,?_⟩
  intro x later
  rw [← agree.entry x (List.mem_cons_of_mem _ later)]
  by_cases same : x.request.ip = a.request.ip
  · have order := (clockedTail clocked).2 x later same
    rw [entryHere same,refusedRefills refused]
    unfold entry
    rw [same]
    cases found : L.buckets a.request.ip with
    | none => simp only [Option.getD_none,newFull timely.rate]; exact newFull timely.rate
    | some b =>
      exact refillTwice ((timely.bucket _ b found) ▸ timely.rate)
        (timely.behind a List.mem_cons_self b found) order
  · rw [entryElsewhere same]

def tokensRemaining (L : RateLimiter Ip) (ip : Ip) : ℚ :=
  ((L.buckets ip).map TokenBucket.tokens).getD L.maxTokens

structure Line (Ip : Type) where
  arrival : Arrival Ip
  allowed : Bool
  tokens : ℚ

def log (L : RateLimiter Ip) : List (Arrival Ip) → List (Line Ip)
  | [] => []
  | a :: rest =>
    let (allowed,next) := L.serve a
    ⟨a,allowed,next.tokensRemaining a.request.ip⟩ :: next.log rest

end RateLimiter

def without {α : Type} (struck : Nat → Bool) : List α → List α
  | [] => []
  | x :: rest =>
    if struck 0 then without (fun i => struck (i + 1)) rest
    else x :: without (fun i => struck (i + 1)) rest

namespace RateLimiter
open TokenBucket (newFull)
variable {Ip : Type} [DecidableEq Ip] {L K : RateLimiter Ip}

theorem logWithout {arrivals : List (Arrival Ip)} {struck : Nat → Bool}
    (agree : Agree L K arrivals) (timely : Timely L arrivals) (clocked : Clocked arrivals)
    (refused : ∀ i line, (L.log arrivals)[i]? = some line → struck i = true → line.allowed = false) :
    K.log (without struck arrivals) = without struck (L.log arrivals) := by
  induction arrivals generalizing L K struck with
  | nil => rfl
  | cons a rest ih =>
    have next := serveTimely timely clocked
    have order := (clockedTail clocked).1
    have others : ∀ i line, ((L.serve a).2.log rest)[i]? = some line → struck (i + 1) = true →
        line.allowed = false := fun i line found => refused (i + 1) line found
    rw [without,log,without]
    split
    · rename_i out
      exact ih (refusedAlike agree timely clocked (refused 0 _ rfl out)) next order others
    · obtain ⟨decision,bucket,alike⟩ := serveAlike agree
      have level : (K.serve a).2.tokensRemaining a.request.ip =
          (L.serve a).2.tokensRemaining a.request.ip := by
        unfold tokensRemaining
        rw [bucket,alike.most]
      simp only [log]
      rw [ih alike next order others,decision,level]

/- Any refused requests can be taken out of a run of the limiter. -/
theorem refusalsCostNothing {maxTokens refillRate : ℚ} (rate : 0 ≤ refillRate)
    {arrivals : List (Arrival Ip)} (clocked : Clocked arrivals) (struck : Nat → Bool) :
    let L : RateLimiter Ip := init maxTokens refillRate
    (∀ i line, (L.log arrivals)[i]? = some line → struck i = true → line.allowed = false) →
    L.log (without struck arrivals) = without struck (L.log arrivals) := by
  intro L refused
  exact logWithout ⟨rfl,rfl,fun _ _ => rfl⟩ ⟨rate,nofun,nofun⟩ clocked refused

theorem secondTakenOut :
    let arrivals : List (Arrival Nat) := [⟨.isAllowed 7,0,0⟩,⟨.isAllowedCost 7 1,1/4,1/4⟩,⟨.isAllowed 7,1,1⟩]
    let L : RateLimiter Nat := init 1 1
    L.log (without (fun i => i = 1) arrivals) = without (fun i => i = 1) (L.log arrivals) := by
  refine refusalsCostNothing (by norm_num) ⟨by simp,?_⟩ _ ?_
  · simp
    norm_num
  · intro i line found struck
    rw [of_decide_eq_true struck] at found
    have second : ((init 1 1).log
        [⟨.isAllowed 7,0,0⟩,⟨.isAllowedCost 7 1,1/4,1/4⟩,⟨.isAllowed 7,1,1⟩] : List (Line Nat))[1]?.map
          Line.allowed = some false := by decide +kernel
    rw [found] at second
    exact Option.some.inj second

/- duration_since(last_refill).as_secs(), in whole seconds. -/
def age (b : TokenBucket) (now : ℚ) : ℤ := (max 0 (now - b.lastRefill)).floor

def cleanupStale (L : RateLimiter Ip) (maxAgeSecs : Nat) (now : ℚ) : RateLimiter Ip :=
  {L with buckets := fun ip => (L.buckets ip).filter fun b => age b now < maxAgeSecs}

inductive Event (Ip : Type) where
  | request (arrival : Arrival Ip)
  | cleanup (now : ℚ)

def answers (maxAgeSecs : Nat) (L : RateLimiter Ip) : List (Event Ip) → List (Arrival Ip × Bool)
  | [] => []
  | .request a :: rest => (a,(L.serve a).1) :: answers maxAgeSecs (L.serve a).2 rest
  | .cleanup now :: rest => answers maxAgeSecs (L.cleanupStale maxAgeSecs now) rest

def requests (events : List (Event Ip)) : List (Arrival Ip) :=
  events.filterMap fun
    | .request a => some a
    | .cleanup _ => none

def Ordered (events : List (Event Ip)) : Prop :=
  events.Pairwise fun e f =>
    match e, f with
    | .cleanup now, .request a => now ≤ a.now
    | _, _ => True

variable {maxAgeSecs : Nat}

omit [DecidableEq Ip] in
theorem cleanedSound (sound : L.Sound) (now : ℚ) : (L.cleanupStale maxAgeSecs now).Sound := by
  refine ⟨sound.most,sound.rate,?_⟩
  intro ip b found
  obtain ⟨there,-⟩ := Option.filter_eq_some_iff.mp found
  exact sound.bucket ip b there

theorem staleFull {b : TokenBucket} {t now : ℚ} (level : b.Level) (rate : 0 ≤ b.refillRate)
    (enough : b.maxTokens ≤ maxAgeSecs * b.refillRate)
    (stale : maxAgeSecs ≤ age b t) (later : t ≤ now) :
    b.refill now = ⟨b.maxTokens,b.maxTokens,b.refillRate,now⟩ := by
  have old : (maxAgeSecs : ℚ) ≤ max 0 (t - b.lastRefill) := by
    exact_mod_cast Rat.le_floor_iff.mp stale
  have grows : max 0 (t - b.lastRefill) ≤ max 0 (now - b.lastRefill) :=
    max_le_max_left 0 (sub_le_sub_right later _)
  refine TokenBucket.refillFull ?_
  calc b.maxTokens ≤ maxAgeSecs * b.refillRate := enough
    _ ≤ max 0 (now - b.lastRefill) * b.refillRate := mul_le_mul_of_nonneg_right (old.trans grows) rate
    _ ≤ b.tokens + max 0 (now - b.lastRefill) * b.refillRate := le_add_of_nonneg_left level.1

omit [DecidableEq Ip] in
theorem cleanedAlike {arrivals : List (Arrival Ip)} {t : ℚ} (agree : Agree L K arrivals) (sound : K.Sound)
    (enough : K.maxTokens ≤ maxAgeSecs * K.refillRate) (later : ∀ a ∈ arrivals, t ≤ a.now) :
    Agree L (K.cleanupStale maxAgeSecs t) arrivals := by
  refine ⟨agree.most,agree.rate,?_⟩
  intro a member
  rw [agree.entry a member]
  cases found : K.buckets a.request.ip with
  | none => simp only [entry,cleanupStale,found,Option.filter_none]
  | some b =>
    obtain ⟨level,most,rate⟩ := sound.bucket _ b found
    by_cases young : age b t < maxAgeSecs
    · simp only [entry,cleanupStale,found,Option.filter_some,young,decide_true,if_true]
    · have full : b.refill a.now = ⟨b.maxTokens,b.maxTokens,b.refillRate,a.now⟩ :=
        staleFull level (rate ▸ sound.rate) (by rw [most,rate]; exact enough) (not_lt.mp young)
          (later a member)
      have kept : K.entry a = b := by rw [entry,found]; rfl
      have new : (K.cleanupStale maxAgeSecs t).entry a =
          TokenBucket.init K.maxTokens K.refillRate a.created := by
        simp only [entry,cleanupStale,found,Option.filter_some,young,decide_false,Bool.false_eq_true,
          if_false,Option.getD_none]
      rw [kept,new,full,newFull sound.rate,most,rate]

theorem answersAlike {events : List (Event Ip)} (agree : Agree L K (requests events)) (sound : K.Sound)
    (enough : K.maxTokens ≤ maxAgeSecs * K.refillRate) (ordered : Ordered events)
    (positive : ∀ a ∈ requests events, 0 < a.request.cost) :
    K.answers maxAgeSecs events = L.decisions (requests events) := by
  induction events generalizing L K with
  | nil => rfl
  | cons e rest ih =>
    obtain ⟨first,others⟩ := List.pairwise_cons.mp ordered
    cases e with
    | request a =>
      obtain ⟨decision,-,alike⟩ := serveAlike agree
      obtain ⟨most,rate⟩ := serveParameters K a
      have next := ih alike (serveSound sound (positive a List.mem_cons_self))
        (by rw [most,rate]; exact enough) others fun x later => positive x (List.mem_cons_of_mem _ later)
      change (a,(K.serve a).1) :: (K.serve a).2.answers maxAgeSecs rest =
        (a,(L.serve a).1) :: (L.serve a).2.decisions (requests rest)
      rw [next,decision]
    | cleanup t =>
      have later : ∀ a ∈ requests rest, t ≤ a.now := by
        intro a member
        obtain ⟨e,among,is⟩ := List.mem_filterMap.mp member
        cases e with
        | request x =>
          cases Option.some.inj is
          exact first _ among
        | cleanup _ => contradiction
      exact ih (cleanedAlike agree sound enough later) (cleanedSound sound t) enough others positive

theorem poorRefuses {events : List (Event Ip)} (poor : K.maxTokens ≤ 0)
    (uniform : ∀ ip b, K.buckets ip = some b → b.maxTokens = K.maxTokens)
    (positive : ∀ a ∈ requests events, 0 < a.request.cost) :
    K.answers maxAgeSecs events = (requests events).map fun a => (a,false) := by
  induction events generalizing K with
  | nil => rfl
  | cons e rest ih =>
    cases e with
    | request a =>
      have cost := positive a List.mem_cons_self
      have own : (K.entry a).maxTokens = K.maxTokens := by
        unfold entry
        cases found : K.buckets a.request.ip with
        | none => rfl
        | some b => exact uniform _ b found
      have short : ¬ a.request.cost ≤ ((K.entry a).refill a.now).tokens := by
        have most : ((K.entry a).refill a.now).tokens ≤ (K.entry a).maxTokens := min_le_right _ _
        linarith
      have refused : (K.entry a).tryConsume a.request.cost a.now = (false,(K.entry a).refill a.now) :=
        if_neg short
      obtain ⟨most,-⟩ := serveParameters K a
      have next := ih (K := (K.serve a).2) (by rw [most]; exact poor) (by
        intro ip b found
        rw [most]
        by_cases mine : ip = a.request.ip
        · rw [mine,servedHere,refused] at found
          cases Option.some.inj found
          exact own
        · rw [servedElsewhere mine] at found
          exact uniform ip b found) fun x later => positive x (List.mem_cons_of_mem _ later)
      change (a,(K.serve a).1) :: (K.serve a).2.answers maxAgeSecs rest =
        (a,false) :: (requests rest).map fun a => (a,false)
      rw [next,decisionHere,refused]
    | cleanup t =>
      refine ih (K := K.cleanupStale maxAgeSecs t) poor ?_ positive
      intro ip b found
      exact uniform ip b (Option.filter_eq_some_iff.mp found).1

theorem decisionsAnswers (K : RateLimiter Ip) (maxAgeSecs : Nat) (arrivals : List (Arrival Ip)) :
    K.decisions arrivals = K.answers maxAgeSecs (arrivals.map .request) ∧
      requests (arrivals.map Event.request) = arrivals := by
  induction arrivals generalizing K with
  | nil => exact ⟨rfl,rfl⟩
  | cons a rest ih =>
    obtain ⟨same,all⟩ := ih (K.serve a).2
    refine ⟨?_,?_⟩
    · rw [decisions,same]
      rfl
    · change a :: requests (rest.map Event.request) = a :: rest
      rw [all]

/- Clean ups never show, where an entry that old is full anyway. -/
theorem cleanupUnseen {maxTokens refillRate : ℚ} {maxAgeSecs : Nat}
    (enough : maxTokens ≤ maxAgeSecs * refillRate) {events : List (Event Ip)} (ordered : Ordered events)
    (positive : ∀ a ∈ requests events, 0 < a.request.cost) :
    (init maxTokens refillRate : RateLimiter Ip).answers maxAgeSecs events =
      (init maxTokens refillRate).decisions (requests events) := by
  rcases le_or_gt maxTokens 0 with poor | rich
  · have empty : ∀ ip b, (init maxTokens refillRate : RateLimiter Ip).buckets ip = some b →
        b.maxTokens = maxTokens := nofun
    obtain ⟨same,all⟩ := decisionsAnswers (init maxTokens refillRate) maxAgeSecs (requests events)
    rw [poorRefuses poor empty positive,same,poorRefuses poor empty (by rw [all]; exact positive),all]
  · have rate : 0 ≤ refillRate := by
      by_contra negative
      have none_ : (maxAgeSecs : ℚ) * refillRate ≤ 0 :=
        mul_nonpos_of_nonneg_of_nonpos (Nat.cast_nonneg _) (le_of_not_ge negative)
      linarith
    exact answersAlike ⟨rfl,rfl,fun _ _ => rfl⟩ (initSound rich.le rate) enough ordered positive

theorem secondAgoUnseen :
    let events : List (Event Nat) := [.request ⟨.isAllowed 7,0,0⟩,.cleanup 1,.request ⟨.isAllowedCost 7 1,1,1⟩]
    (init 1 1 : RateLimiter Nat).answers 1 events = (init 1 1).decisions (requests events) := by
  refine cleanupUnseen (by norm_num) ?_ ?_
  · simp [Ordered]
  · simp [requests,Request.cost]

end RateLimiter
end RDrive.RateLimit
