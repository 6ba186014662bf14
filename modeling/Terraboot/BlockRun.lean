import Terraboot.Upload

/-!
# Blocks in Order

A driver that is given the blocks of an image one after the other, each once, and stops at
the first error: this is the deployer's loop, and what an upload in which nothing is lost
amounts to.

## Main results

* `Upload.sendBlocks_writeBlocks`: without repeated deliveries the blocks of an upload are
  acknowledged exactly if the driver takes them all.
-/

open NorFlash

namespace Terraboot

variable {S T : Type}

/-- The driver takes the blocks of `w` at `k` addresses from `a` on, in order. -/
def Backend.writeBlocks (B : Backend S) (w : Mem) : ℕ → ℕ → S → Flash → Option (S × Flash)
  | _, 0, st, f => some (st, f)
  | a, k + 1, st, f =>
      let r := B.flashWriteBlock st f a (read w a 64)
      if r.1 < 0 then none else B.writeBlocks w (a + 64) k r.2.1 r.2.2

namespace Backend

variable {B : Backend S} {w : Mem}

/-- The first block decides whether the run goes on. -/
theorem writeBlocks_succ_of_nonneg {a k : ℕ} {st st' : S} {f f' : Flash} {ret : ℤ}
    (h : B.flashWriteBlock st f a (read w a 64) = (ret, st', f')) (hret : 0 ≤ ret) :
    B.writeBlocks w a (k + 1) st f = B.writeBlocks w (a + 64) k st' f' := by
  rw [writeBlocks, h]
  exact if_neg (Int.not_lt.mpr hret)

theorem writeBlocks_succ_of_neg {a k : ℕ} {st : S} {f : Flash}
    (h : (B.flashWriteBlock st f a (read w a 64)).1 < 0) :
    B.writeBlocks w a (k + 1) st f = none := by
  rw [writeBlocks]
  exact if_pos h

theorem writeBlocks_add (a j k : ℕ) (st : S) (f : Flash) :
    B.writeBlocks w a (j + k) st f =
      (B.writeBlocks w a j st f).bind fun r => B.writeBlocks w (a + 64 * j) k r.1 r.2 := by
  induction j generalizing a st f with
  | zero => rw [Nat.zero_add]; rfl
  | succ j ih =>
      have hadd : j + 1 + k = (j + k) + 1 := by omega
      have haddr : a + 64 + 64 * j = a + 64 * (j + 1) := by omega
      obtain ⟨ret, st', f', h⟩ : ∃ ret st' f',
          B.flashWriteBlock st f a (read w a 64) = (ret, st', f') := ⟨_, _, _, rfl⟩
      rw [hadd]
      by_cases hret : ret < 0
      · have hneg : (B.flashWriteBlock st f a (read w a 64)).1 < 0 := by rw [h]; exact hret
        rw [writeBlocks_succ_of_neg hneg, writeBlocks_succ_of_neg hneg, Option.bind_none]
      · have hnonneg := Int.not_lt.mp hret
        rw [writeBlocks_succ_of_nonneg h hnonneg, writeBlocks_succ_of_nonneg h hnonneg, ih, haddr]

/-- Only the content of the blocks matters. -/
theorem writeBlocks_congr {w' : Mem} {a k : ℕ} (h : ∀ x, InRange a (64 * k) x → w x = w' x)
    (st : S) (f : Flash) : B.writeBlocks w a k st f = B.writeBlocks w' a k st f := by
  induction k generalizing a st f with
  | zero => rfl
  | succ k ih =>
      have hblock : read w a 64 = read w' a 64 :=
        read_congr fun x hx => h x ⟨hx.1, by have := hx.2; omega⟩
      rw [writeBlocks, writeBlocks, hblock]
      split_ifs
      · rfl
      · exact ih (fun x hx => h x ⟨by have := hx.1; omega, by have := hx.2; omega⟩) _ _

end Backend

namespace Upload

variable {b : Board S T} {u : Upload T}

/-- **An upload in which nothing is repeated** is acknowledged exactly if the driver takes
all blocks, and leaves the driver and the flash as the run of the driver does. -/
theorem sendBlocks_writeBlocks (hblock : b.cfg.blockSize = 64) (k : ℕ) {a : ℕ}
    (hrange : ∀ i < k, a + 64 * i < 2 ^ 32 ∧ flashcmdBlockInRange b.cfg (a + 64 * i) = true)
    (hagain : ∀ i < k, u.again (a + 64 * i) = []) (d : Device S T) :
    (AllAcked b d (u.sendBlocks a k) ↔
        (b.backend.writeBlocks u.image a k d.backend d.flash).isSome) ∧
      ∀ st f, b.backend.writeBlocks u.image a k d.backend d.flash = some (st, f) →
        (serve b d (u.sendBlocks a k)).backend = st ∧ (serve b d (u.sendBlocks a k)).flash = f := by
  induction k generalizing a d with
  | zero =>
      refine ⟨iff_of_true trivial rfl, ?_⟩
      rintro st f h
      obtain ⟨rfl, rfl⟩ := Prod.mk.inj (Option.some.inj h)
      exact ⟨rfl, rfl⟩
  | succ k ih =>
      obtain ⟨ha, hin⟩ := hrange 0 (by omega)
      rw [Nat.mul_zero, Nat.add_zero] at ha hin
      obtain ⟨hbackend, hflash, hacked⟩ :=
        commandDispatch_sendBlock hblock d (u.first a) ha hin (u.block_length a)
      have hnil : u.again a = [] := hagain 0 (by omega)
      have hshift : ∀ i, a + 64 + 64 * i = a + 64 * (i + 1) := fun i => by omega
      obtain ⟨hiff, hresult⟩ := ih (a := a + 64)
        (fun i hi => by rw [hshift]; exact hrange (i + 1) (by omega))
        (fun i hi => by rw [hshift]; exact hagain (i + 1) (by omega))
        (serve b d [sendBlock (u.first a) a (u.block a) (u.block_length a)])
      have hdel : u.deliveries a = [sendBlock (u.first a) a (u.block a) (u.block_length a)] := by
        rw [deliveries, hnil]
        rfl
      rw [sendBlocks, hdel, allAcked_append, allAcked_singleton, hacked, serve_append]
      obtain ⟨ret, st', f', h⟩ : ∃ ret st' f',
          b.backend.flashWriteBlock d.backend d.flash a (u.block a) = (ret, st', f') :=
        ⟨_, _, _, rfl⟩
      rw [h] at hbackend hflash
      have hserve : (serve b d [sendBlock (u.first a) a (u.block a) (u.block_length a)]).backend =
          st' ∧ (serve b d [sendBlock (u.first a) a (u.block a) (u.block_length a)]).flash = f' :=
        ⟨hbackend, hflash⟩
      rw [hserve.1, hserve.2] at hiff hresult
      by_cases hret : ret < 0
      · have hneg : (b.backend.flashWriteBlock d.backend d.flash a (u.block a)).1 < 0 := by
          rw [h]
          exact hret
        rw [Backend.writeBlocks_succ_of_neg hneg]
        refine ⟨iff_of_false (fun hc => ?_) nofun, nofun⟩
        exact absurd hc.1 (Int.not_le.mpr hneg)
      · have hnonneg := Int.not_lt.mp hret
        rw [Backend.writeBlocks_succ_of_nonneg h hnonneg, h]
        exact ⟨(and_iff_right hnonneg).trans hiff, hresult⟩

end Upload

end Terraboot
