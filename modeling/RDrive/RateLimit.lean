import Mathlib.Algebra.Order.Field.Rat
import Mathlib.Algebra.BigOperators.Group.List.Basic
import Mathlib.Logic.Function.Basic
import Mathlib.Tactic.Linarith
import Mathlib.Tactic.Ring

/-! ratelimit.rs over the rationals: a bucket of tokens for each address, filled up
lazily when a request of that address comes. Entries are not cleaned up here. -/
namespace RDrive.RateLimit

/- Instants and durations in seconds. -/
structure TokenBucket where
  tokens : ℚ
  maxTokens : ℚ
  refillRate : ℚ
  lastRefill : ℚ

namespace TokenBucket

def init (maxTokens refillRate now : ℚ) : TokenBucket := ⟨maxTokens,maxTokens,refillRate,now⟩

/- duration_since is zero for an instant that lies ahead. -/
def refill (b : TokenBucket) (now : ℚ) : TokenBucket :=
  let elapsed := max 0 (now - b.lastRefill)
  {b with tokens := min (b.tokens + elapsed * b.refillRate) b.maxTokens,lastRefill := now}

def tryConsume (b : TokenBucket) (cost now : ℚ) : Bool × TokenBucket :=
  let b := b.refill now
  if cost ≤ b.tokens then (true,{b with tokens := b.tokens - cost}) else (false,b)

end TokenBucket

structure RateLimiter (Ip : Type) where
  buckets : Ip → Option TokenBucket
  maxTokens : ℚ
  refillRate : ℚ

inductive Request (Ip : Type) where
  | isAllowed (ip : Ip)
  | isAllowedCost (ip : Ip) (cost : ℚ)

def Request.ip : Request Ip → Ip
  | .isAllowed ip => ip
  | .isAllowedCost ip _ => ip

def Request.cost : Request Ip → ℚ
  | .isAllowed _ => 1
  | .isAllowedCost _ cost => cost

/- A request and what the clock says when its entry is made, and when it is refilled. -/
structure Arrival (Ip : Type) where
  request : Request Ip
  created : ℚ
  now : ℚ

namespace RateLimiter
variable {Ip : Type} [DecidableEq Ip]

def init (maxTokens refillRate : ℚ) : RateLimiter Ip := ⟨fun _ => none,maxTokens,refillRate⟩

/- entry(ip).or_insert_with(..).try_consume(cost) -/
def consumeEntry (L : RateLimiter Ip) (ip : Ip) (cost created now : ℚ) : Bool × RateLimiter Ip :=
  let entry := (L.buckets ip).getD (TokenBucket.init L.maxTokens L.refillRate created)
  let (allowed,bucket) := entry.tryConsume cost now
  (allowed,{L with buckets := Function.update L.buckets ip (some bucket)})

def isAllowed (L : RateLimiter Ip) (ip : Ip) (created now : ℚ) : Bool × RateLimiter Ip :=
  L.consumeEntry ip 1 created now

def isAllowedCost (L : RateLimiter Ip) (ip : Ip) (cost created now : ℚ) : Bool × RateLimiter Ip :=
  L.consumeEntry ip cost created now

def serve (L : RateLimiter Ip) (a : Arrival Ip) : Bool × RateLimiter Ip :=
  match a.request with
  | .isAllowed ip => L.isAllowed ip a.created a.now
  | .isAllowedCost ip cost => L.isAllowedCost ip cost a.created a.now

def decisions (L : RateLimiter Ip) : List (Arrival Ip) → List (Arrival Ip × Bool)
  | [] => []
  | a :: rest => (a,(L.serve a).1) :: decisions (L.serve a).2 rest

def after (L : RateLimiter Ip) (arrivals : List (Arrival Ip)) : RateLimiter Ip :=
  arrivals.foldl (fun L a => (L.serve a).2) L

end RateLimiter

namespace TokenBucket

def Level (b : TokenBucket) : Prop := 0 ≤ b.tokens ∧ b.tokens ≤ b.maxTokens

variable {b : TokenBucket} {cost now : ℚ}

theorem refillLevel (level : b.Level) (rate : 0 ≤ b.refillRate) : (b.refill now).Level := by
  have gained : 0 ≤ max 0 (now - b.lastRefill) * b.refillRate :=
    mul_nonneg (le_max_left _ _) rate
  have room : 0 ≤ b.maxTokens := level.1.trans level.2
  exact ⟨le_min (add_nonneg level.1 gained) room,min_le_right _ _⟩

theorem refillGains (later : b.lastRefill ≤ now) :
    (b.refill now).tokens ≤ b.tokens + b.refillRate * (now - b.lastRefill) := by
  have elapsed : max 0 (now - b.lastRefill) = now - b.lastRefill :=
    max_eq_right (sub_nonneg.mpr later)
  have below : (b.refill now).tokens ≤ b.tokens + max 0 (now - b.lastRefill) * b.refillRate :=
    min_le_left _ _
  rw [elapsed,mul_comm] at below
  exact below

def taken (allowed : Bool) (cost : ℚ) : ℚ := if allowed then cost else 0

theorem consumeCases {allowed : Bool} {next : TokenBucket}
    (consumed : b.tryConsume cost now = (allowed,next)) :
    next = {b.refill now with tokens := (b.refill now).tokens - taken allowed cost} ∧
      (allowed = true → cost ≤ (b.refill now).tokens) := by
  unfold tryConsume at consumed
  simp only [] at consumed
  split at consumed <;> obtain ⟨rfl,rfl⟩ := Prod.mk.inj consumed
  · rename_i enough
    exact ⟨rfl,fun _ => enough⟩
  · exact ⟨by simp [taken],nofun⟩

structure Paid (b : TokenBucket) (cost now : ℚ) (allowed : Bool) (next : TokenBucket) : Prop where
  level : next.Level
  maxTokens : next.maxTokens = b.maxTokens
  refillRate : next.refillRate = b.refillRate
  lastRefill : next.lastRefill = now
  capacity : taken allowed cost + next.tokens ≤ b.maxTokens
  inflow : b.lastRefill ≤ now →
    taken allowed cost + next.tokens ≤ b.tokens + b.refillRate * (now - b.lastRefill)

theorem takenFree (allowed : Bool) (positive : 0 < cost) : 0 ≤ taken allowed cost := by
  cases allowed with
  | true => exact le_of_lt positive
  | false => exact le_refl 0

theorem consumePaid {allowed : Bool} {next : TokenBucket} (level : b.Level)
    (rate : 0 ≤ b.refillRate) (positive : 0 < cost)
    (consumed : b.tryConsume cost now = (allowed,next)) : b.Paid cost now allowed next := by
  obtain ⟨rfl,affordable⟩ := consumeCases consumed
  have refilled : (b.refill now).Level := refillLevel level rate
  have free := takenFree allowed positive
  have enough : taken allowed cost ≤ (b.refill now).tokens := by
    cases allowed with
    | true => exact affordable rfl
    | false => exact refilled.1
  exact {
    level := ⟨sub_nonneg.mpr enough,(sub_le_self _ free).trans refilled.2⟩
    maxTokens := rfl
    refillRate := rfl
    lastRefill := rfl
    capacity := by
      simp only [add_sub_cancel]
      exact refilled.2
    inflow := by
      intro later
      simp only [add_sub_cancel]
      exact refillGains later }

end TokenBucket

namespace RateLimiter
open TokenBucket (taken)
variable {Ip : Type} {L : RateLimiter Ip}

def entry (L : RateLimiter Ip) (a : Arrival Ip) : TokenBucket :=
  (L.buckets a.request.ip).getD (TokenBucket.init L.maxTokens L.refillRate a.created)

structure Sound (L : RateLimiter Ip) : Prop where
  most : 0 ≤ L.maxTokens
  rate : 0 ≤ L.refillRate
  bucket : ∀ ip b, L.buckets ip = some b →
    b.Level ∧ b.maxTokens = L.maxTokens ∧ b.refillRate = L.refillRate

theorem entrySound (sound : L.Sound) (a : Arrival Ip) : (L.entry a).Level ∧
    (L.entry a).maxTokens = L.maxTokens ∧ (L.entry a).refillRate = L.refillRate := by
  unfold entry
  cases found : L.buckets a.request.ip with
  | none => exact ⟨⟨sound.most,le_refl _⟩,rfl,rfl⟩
  | some b => exact sound.bucket _ b found

theorem initSound {maxTokens refillRate : ℚ} (most : 0 ≤ maxTokens) (rate : 0 ≤ refillRate) :
    (init maxTokens refillRate : RateLimiter Ip).Sound := ⟨most,rate,nofun⟩

def Clocked (arrivals : List (Arrival Ip)) : Prop :=
  (∀ a ∈ arrivals, a.created ≤ a.now) ∧
    arrivals.Pairwise fun a b => a.request.ip = b.request.ip → a.now ≤ b.created

theorem clockedTail {a : Arrival Ip} {rest : List (Arrival Ip)} (clocked : Clocked (a :: rest)) :
    Clocked rest ∧ ∀ x ∈ rest, x.request.ip = a.request.ip → a.now ≤ x.now := by
  obtain ⟨own,ordered⟩ := clocked
  obtain ⟨first,others⟩ := List.pairwise_cons.mp ordered
  refine ⟨⟨fun x later => own x (List.mem_cons_of_mem _ later),others⟩,?_⟩
  intro x later same
  exact (first x later same.symm).trans (own x (List.mem_cons_of_mem _ later))

variable [DecidableEq Ip]

theorem serveCases (L : RateLimiter Ip) (a : Arrival Ip) :
    let (allowed,next) := (L.entry a).tryConsume a.request.cost a.now
    L.serve a = (allowed,{L with buckets := Function.update L.buckets a.request.ip (some next)}) := by
  obtain ⟨request,created,now⟩ := a
  cases request <;> rfl

theorem servedHere (L : RateLimiter Ip) (a : Arrival Ip) : (L.serve a).2.buckets a.request.ip =
    some ((L.entry a).tryConsume a.request.cost a.now).2 := by
  rw [serveCases]
  exact Function.update_self ..

theorem servedElsewhere {a : Arrival Ip} {ip : Ip} (other : ip ≠ a.request.ip) :
    (L.serve a).2.buckets ip = L.buckets ip := by
  rw [serveCases]
  exact Function.update_of_ne other ..

theorem serveParameters (L : RateLimiter Ip) (a : Arrival Ip) :
    (L.serve a).2.maxTokens = L.maxTokens ∧ (L.serve a).2.refillRate = L.refillRate := by
  rw [serveCases]
  exact ⟨rfl,rfl⟩

theorem decisionsAlone {K : RateLimiter Ip} {ip : Ip} (same : L.buckets ip = K.buckets ip)
    (most : L.maxTokens = K.maxTokens) (rate : L.refillRate = K.refillRate)
    (arrivals : List (Arrival Ip)) :
    (L.decisions arrivals).filter (fun d => d.1.request.ip = ip) =
      K.decisions (arrivals.filter fun a => a.request.ip = ip) := by
  induction arrivals generalizing L K with
  | nil => rfl
  | cons a rest ih =>
    obtain ⟨mostL,rateL⟩ := serveParameters L a
    by_cases mine : a.request.ip = ip
    · obtain ⟨mostK,rateK⟩ := serveParameters K a
      have found : L.entry a = K.entry a := by
        unfold entry
        rw [mine,same,most,rate]
      have next : (L.serve a).2.buckets ip = (K.serve a).2.buckets ip := by
        rw [← mine,servedHere,servedHere,found]
      have answer : (L.serve a).1 = (K.serve a).1 := by rw [serveCases,serveCases,found]
      rw [decisions,List.filter_cons_of_pos (by simpa using mine),
        List.filter_cons_of_pos (by simpa using mine),decisions,answer,
        ih next (by rw [mostL,mostK,most]) (by rw [rateL,rateK,rate])]
    · rw [decisions,List.filter_cons_of_neg (by simpa using mine),
        List.filter_cons_of_neg (by simpa using mine)]
      exact ih ((servedElsewhere (Ne.symm mine)).trans same) (mostL.trans most) (rateL.trans rate)

theorem entryPaid (sound : L.Sound) {a : Arrival Ip} (positive : 0 < a.request.cost) :
    ∃ next, (L.serve a).2.buckets a.request.ip = some next ∧
      (L.entry a).Paid a.request.cost a.now (L.serve a).1 next := by
  obtain ⟨level,-,rate⟩ := entrySound sound a
  refine ⟨_,servedHere L a,?_⟩
  rw [serveCases]
  exact TokenBucket.consumePaid level (by rw [rate]; exact sound.rate) positive rfl

theorem serveSound (sound : L.Sound) {a : Arrival Ip} (positive : 0 < a.request.cost) :
    (L.serve a).2.Sound := by
  obtain ⟨most,rate⟩ := serveParameters L a
  obtain ⟨-,sameMost,sameRate⟩ := entrySound sound a
  obtain ⟨next,here,paid⟩ := entryPaid sound positive
  refine ⟨by rw [most]; exact sound.most,by rw [rate]; exact sound.rate,?_⟩
  intro ip b found
  rw [most,rate]
  by_cases mine : ip = a.request.ip
  · subst mine
    cases Option.some.inj (here.symm.trans found)
    exact ⟨paid.level,paid.maxTokens.trans sameMost,paid.refillRate.trans sameRate⟩
  · rw [servedElsewhere mine] at found
    exact sound.bucket ip b found

theorem afterParameters (L : RateLimiter Ip) (arrivals : List (Arrival Ip)) :
    (L.after arrivals).maxTokens = L.maxTokens := by
  induction arrivals generalizing L with
  | nil => rfl
  | cons a rest ih => exact (ih _).trans (serveParameters L a).1

theorem afterSound (sound : L.Sound) {arrivals : List (Arrival Ip)}
    (positive : ∀ a ∈ arrivals, 0 < a.request.cost) : (L.after arrivals).Sound := by
  induction arrivals generalizing L with
  | nil => exact sound
  | cons a rest ih =>
    exact ih (serveSound sound (positive a List.mem_cons_self)) fun x later =>
      positive x (List.mem_cons_of_mem _ later)

def spent (ip : Ip) (s t : ℚ) : List (Arrival Ip × Bool) → ℚ
  | [] => 0
  | (a,allowed) :: rest =>
    (if a.request.ip = ip ∧ s ≤ a.now ∧ a.now ≤ t then taken allowed a.request.cost else 0) +
      spent ip s t rest

theorem spentNothing {ip : Ip} {s t : ℚ} {arrivals : List (Arrival Ip)}
    (beyond : ∀ x ∈ arrivals, x.request.ip = ip → t < x.now) :
    spent ip s t (L.decisions arrivals) = 0 := by
  induction arrivals generalizing L with
  | nil => rfl
  | cons a rest ih =>
    have outside : ¬ (a.request.ip = ip ∧ s ≤ a.now ∧ a.now ≤ t) := fun inside =>
      not_lt.mpr inside.2.2 (beyond a List.mem_cons_self inside.1)
    rw [decisions,spent,if_neg outside,zero_add]
    exact ih fun x later => beyond x (List.mem_cons_of_mem _ later)

theorem spentFlow {ip : Ip} {s t : ℚ} {b : TokenBucket} {arrivals : List (Arrival Ip)}
    (sound : L.Sound) (positive : ∀ a ∈ arrivals, 0 < a.request.cost) (clocked : Clocked arrivals)
    (found : L.buckets ip = some b) (start : b.lastRefill ≤ t)
    (behind : ∀ a ∈ arrivals, a.request.ip = ip → b.lastRefill ≤ a.now) :
    spent ip s t (L.decisions arrivals) ≤ b.tokens + L.refillRate * (t - b.lastRefill) := by
  induction arrivals generalizing L b with
  | nil =>
    have level := (sound.bucket ip b found).1
    exact add_nonneg level.1 (mul_nonneg sound.rate (sub_nonneg.mpr start))
  | cons a rest ih =>
    obtain ⟨later,order⟩ := clockedTail clocked
    have cost := positive a List.mem_cons_self
    have others : ∀ x ∈ rest, 0 < x.request.cost := fun x member =>
      positive x (List.mem_cons_of_mem _ member)
    have rate := (serveParameters L a).2
    rw [decisions,spent]
    by_cases mine : a.request.ip = ip
    · subst mine
      obtain ⟨next,here,paid⟩ := entryPaid sound cost
      have same : L.entry a = b := by
        unfold entry
        rw [found]
        rfl
      rw [same] at paid
      have above := behind a List.mem_cons_self rfl
      rcases le_or_gt a.now t with inTime | beyond
      · have flow := ih (serveSound sound cost) others later here (by rw [paid.lastRefill]; exact inTime)
          (fun x member same => by rw [paid.lastRefill]; exact order x member same)
        have inflow := paid.inflow above
        rw [paid.lastRefill,rate] at flow
        rw [(sound.bucket _ b found).2.2] at inflow
        have total : taken (L.serve a).1 a.request.cost +
            spent a.request.ip s t ((L.serve a).2.decisions rest) ≤
            b.tokens + L.refillRate * (t - b.lastRefill) := by
          calc _ ≤ taken (L.serve a).1 a.request.cost + (next.tokens + L.refillRate * (t - a.now)) := by
                gcongr
            _ ≤ b.tokens + L.refillRate * (a.now - b.lastRefill) + L.refillRate * (t - a.now) := by
                linarith
            _ = b.tokens + L.refillRate * (t - b.lastRefill) := by ring
        have free := TokenBucket.takenFree (L.serve a).1 cost
        split
        · exact total
        · linarith
      · have outside : ¬ (a.request.ip = a.request.ip ∧ s ≤ a.now ∧ a.now ≤ t) := fun inside =>
          not_lt.mpr inside.2.2 beyond
        have rest_ : spent a.request.ip s t ((L.serve a).2.decisions rest) = 0 :=
          spentNothing fun x member same => beyond.trans_le (order x member same)
        rw [if_neg outside,rest_,zero_add]
        exact add_nonneg (sound.bucket _ b found).1.1 (mul_nonneg sound.rate (sub_nonneg.mpr start))
    · have outside : ¬ (a.request.ip = ip ∧ s ≤ a.now ∧ a.now ≤ t) := fun inside => mine inside.1
      have kept := (servedElsewhere (Ne.symm mine)).trans found
      rw [if_neg outside,zero_add,← rate]
      exact ih (serveSound sound cost) others later kept start fun x member =>
        behind x (List.mem_cons_of_mem _ member)

theorem spentWindow {ip : Ip} {s t : ℚ} {arrivals : List (Arrival Ip)} (window : s ≤ t)
    (sound : L.Sound) (positive : ∀ a ∈ arrivals, 0 < a.request.cost) (clocked : Clocked arrivals) :
    spent ip s t (L.decisions arrivals) ≤ L.maxTokens + L.refillRate * (t - s) := by
  induction arrivals generalizing L with
  | nil => exact add_nonneg sound.most (mul_nonneg sound.rate (sub_nonneg.mpr window))
  | cons a rest ih =>
    obtain ⟨later,order⟩ := clockedTail clocked
    have cost := positive a List.mem_cons_self
    have others : ∀ x ∈ rest, 0 < x.request.cost := fun x member =>
      positive x (List.mem_cons_of_mem _ member)
    obtain ⟨most,rate⟩ := serveParameters L a
    have next := serveSound sound cost
    rw [decisions,spent]
    split
    · -- the first request in the window: its bucket can hold no more than the most
      rename_i inside
      obtain ⟨rfl,begun,inTime⟩ := inside
      obtain ⟨bucket,here,paid⟩ := entryPaid sound cost
      have flow := spentFlow (s := s) (t := t) next others later here
        (by rw [paid.lastRefill]; exact inTime)
        (fun x member same => by rw [paid.lastRefill]; exact order x member same)
      have capacity := paid.capacity
      rw [(entrySound sound a).2.1] at capacity
      rw [paid.lastRefill,rate] at flow
      calc _ ≤ taken (L.serve a).1 a.request.cost +
            (bucket.tokens + L.refillRate * (t - a.now)) := by gcongr
        _ ≤ L.maxTokens + L.refillRate * (t - a.now) := by linarith
        _ ≤ L.maxTokens + L.refillRate * (t - s) := by
            have rate := sound.rate
            gcongr
    · rw [zero_add,← most,← rate]
      exact ih next others later

/- The three promises of the limiter, from its start. -/
theorem limiterBounds {maxTokens refillRate : ℚ} (most : 0 ≤ maxTokens) (rate : 0 ≤ refillRate)
    {arrivals : List (Arrival Ip)} (clocked : Clocked arrivals)
    (positive : ∀ a ∈ arrivals, 0 < a.request.cost) :
    let L : RateLimiter Ip := init maxTokens refillRate
    (∀ ip s t, s ≤ t →
      spent ip s t (L.decisions arrivals) ≤ maxTokens + refillRate * (t - s)) ∧
    (∀ ip b now, (L.after arrivals).buckets ip = some b →
      (0 ≤ b.tokens ∧ b.tokens ≤ maxTokens) ∧
      0 ≤ (b.refill now).tokens ∧ (b.refill now).tokens ≤ maxTokens) ∧
    (∀ ip, (L.decisions arrivals).filter (fun d => d.1.request.ip = ip) =
      L.decisions (arrivals.filter fun a => a.request.ip = ip)) := by
  intro L
  have sound : L.Sound := initSound most rate
  refine ⟨fun ip s t window => spentWindow window sound positive clocked,?_,
    fun ip => decisionsAlone rfl rfl rfl arrivals⟩
  intro ip b now found
  have reached := afterSound sound positive
  obtain ⟨level,capacity,flow⟩ := reached.bucket ip b found
  have refilled : (b.refill now).Level :=
    TokenBucket.refillLevel level (by rw [flow]; exact reached.rate)
  rw [afterParameters] at capacity
  obtain ⟨low,high⟩ := level
  obtain ⟨refilledLow,refilledHigh⟩ := refilled
  have most_ : b.maxTokens ≤ maxTokens := le_of_eq capacity
  exact ⟨⟨low,high.trans most_⟩,refilledLow,refilledHigh.trans most_⟩

theorem twoRequestsBounded :
    let arrivals : List (Arrival Nat) := [⟨.isAllowed 7,0,0⟩,⟨.isAllowedCost 7 1,1/2,1/2⟩]
    let L : RateLimiter Nat := init 1 1
    (∀ ip s t, s ≤ t → spent ip s t (L.decisions arrivals) ≤ 1 + 1 * (t - s)) ∧
    (∀ ip b now, (L.after arrivals).buckets ip = some b →
      (0 ≤ b.tokens ∧ b.tokens ≤ 1) ∧ 0 ≤ (b.refill now).tokens ∧ (b.refill now).tokens ≤ 1) ∧
    (∀ ip, (L.decisions arrivals).filter (fun d => d.1.request.ip = ip) =
      L.decisions (arrivals.filter fun a => a.request.ip = ip)) := by
  refine limiterBounds (by norm_num) (by norm_num) ⟨by simp,?_⟩ ?_
  · simp
  · simp [Request.cost]

end RateLimiter
end RDrive.RateLimit
