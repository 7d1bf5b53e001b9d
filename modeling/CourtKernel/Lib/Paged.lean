import CourtKernel.Lib.Words

/-!
# Memory behind a translation

With paging a program names virtual addresses.  What they mean is found in memory itself, so a store
can change the meaning of the next access.  A `Translation` gives the meaning for each content of
memory; an access to an address without one is a fault.

* `load`, `store` — accesses byte by byte, each through the translation in force at that moment.
* `Stable` — the translation depends only on some bytes, those of its tables.
* `load_eq`, `store_eq` — over a range that is mapped in one piece, and away from the tables, the
  accesses are those of plain memory.
-/

namespace CourtKernel

/-- The physical address of a virtual one, for each content of memory. -/
abbrev Translation := Memory → UInt64 → Option Nat

namespace Translation

/-- `n` bytes from `va` on; `none` is a fault. -/
def load (tr : Translation) (m : Memory) : UInt64 → Nat → Option (List UInt8)
  | _, 0 => some []
  | va, n + 1 =>
    match tr m va, load tr m (va + 1) n with
    | some a, some bs => some (m a :: bs)
    | _, _ => none

/-- Bytes stored one after another from `va` on. -/
def store (tr : Translation) : UInt64 → List UInt8 → Memory → Option Memory
  | _, [], m => some m
  | va, b :: bs, m =>
    match tr m va with
    | some a => store tr (va + 1) bs (m.write a [b])
    | none => none

/-- `n` addresses from `va` on are the bytes from `p` on. -/
def Maps (f : UInt64 → Option Nat) (va : UInt64) (p n : Nat) : Prop :=
  ∀ i < n, f (va + UInt64.ofNat i) = some (p + i)

/-- The translation of every address is the same in all memories that hold the same in `T`. -/
def Stable (tr : Translation) (m : Memory) (T : Nat → Prop) : Prop :=
  ∀ m' : Memory, (∀ a, T a → m' a = m a) → tr m' = tr m

variable {tr : Translation} {m m' : Memory} {T : Nat → Prop} {f : UInt64 → Option Nat} {va : UInt64}
  {p n : Nat} {bs : List UInt8}

theorem Maps.part (h : Maps f va p n) (off k : Nat) (hk : off + k ≤ n) :
    Maps f (va + UInt64.ofNat off) (p + off) k := by
  intro i hi
  rw [UInt64.add_assoc, ← UInt64.ofNat_add, Nat.add_assoc]
  exact h (off + i) (by omega)

theorem Maps.head (h : Maps f va p (n + 1)) : f va = some p := by
  have hzero := h 0 (Nat.succ_pos n)
  simpa using hzero

theorem Maps.tail (h : Maps f va p (n + 1)) : Maps f (va + 1) (p + 1) n := h.part 1 n (by omega)

theorem Stable.agree (h : tr.Stable m T) (hm : ∀ a, T a → m' a = m a) : tr.Stable m' T := by
  intro m'' hm''
  rw [h m' hm, h m'' fun a ha => (hm'' a ha).trans (hm a ha)]

theorem load_eq (h : Maps (tr m) va p n) : tr.load m va n = some (m.read p n) := by
  induction n generalizing va p with
  | zero => rfl
  | succ n ih => simp only [load, h.head, ih h.tail, Memory.read_succ]

/-- A store away from the tables. -/
theorem store_eq (hs : tr.Stable m T) (h : Maps (tr m) va p bs.length)
    (hout : ∀ i < bs.length, ¬ T (p + i)) : tr.store va bs m = some (m.write p bs) := by
  induction bs generalizing m va p with
  | nil => simp [store]
  | cons b bs ih =>
    -- the first byte changes no table, so the rest is translated as before
    have hagree : ∀ a, T a → m.write p [b] a = m a := by
      intro a ha
      have hne : a ≠ p := fun heq => hout 0 (by simp) (heq ▸ ha)
      rcases Nat.lt_or_gt_of_ne hne with hlt | hgt
      · exact Memory.write_of_lt hlt
      · exact Memory.write_of_ge hgt
    have hsame : tr (m.write p [b]) = tr m := hs _ hagree
    have htail : Maps (tr (m.write p [b])) (va + 1) (p + 1) bs.length := by
      rw [hsame]
      exact Maps.tail h
    have hrest := ih (hs.agree hagree) htail fun i hi => by
      rw [Nat.add_assoc, Nat.add_comm 1]
      exact hout (i + 1) (by simpa using hi)
    rw [store, Maps.head h]
    dsimp only
    rw [hrest]
    exact congrArg some Memory.write_append

end Translation

end CourtKernel
