/-
The Poseidon255 permutation hash of `poseidon255.circom`: eight full and
56 partial rounds at every width the protocol uses, state word 0 as
both capacity and output.

The theorems about the protocol take the hash as a parameter. This is
the function that parameter stands for, and the one every concrete run
is evaluated with. A permutation costs several hundred field
multiplications, so a run is evaluated over a table of precomputed
digests: `tabulated` looks the input up and hashes only what is missing,
and it is the hash itself whenever the table is right
(`tabulated_eq`).
-/
import Lumix.Circuits.Poseidon255Constants

namespace Lumix

namespace Poseidon255

-- ========================================================= templates

/-- Template `x5`. -/
def x5 (x : Fr) : Fr :=
  let x2 := x * x
  let x4 := x2 * x2
  x4 * x

/-- One row of template `m`: the row of `M` against the state. -/
def row : List Fr → List Fr → Fr
  | c :: cs, x :: xs => c * x + row cs xs
  | _, _ => 0

/-- Template `m`. -/
def m (M : List (List Fr)) (state : List Fr) : List Fr :=
  M.map fun cs => row cs state

/-- Template `ark` with the constants that are left. -/
def ark : List Fr → List Fr → List Fr
  | x :: xs, c :: cs => (x + c) :: ark xs cs
  | _, _ => []

/-- The S-box layer: every word in a full round, word 0 in a partial
one. -/
def sbox (full : Bool) : List Fr → List Fr
  | [] => []
  | x :: xs => x5 x :: if full then xs.map x5 else xs

/-- `nF / 2` full rounds, `nP` partial rounds, `nF / 2` full rounds. -/
def nF : ℕ := 8

def nP : ℕ := 56

/-- `remaining` rounds from round `i` on, consuming `t` constants
each. -/
def rounds (t : ℕ) (M : List (List Fr)) :
    (remaining i : ℕ) → (C state : List Fr) → List Fr
  | 0, _, _, state => state
  | remaining + 1, i, C, state =>
      let full := decide (i < nF / 2) || decide (nF / 2 + nP ≤ i)
      rounds t M remaining (i + 1) (C.drop t)
        (m M (sbox full (ark state C)))

/-- One permutation at width `t` on `0 :: inputs`, word 0 out. -/
def permute (t : ℕ) (C : List Fr) (M : List (List Fr))
    (inputs : List Fr) : Fr :=
  (rounds t M (nF + nP) 0 C (0 :: inputs)).headD 0

-- ========================================================= residues

/-- The templates on canonical residues. Literal naturals multiply and
reduce in one step of the kernel, elements of `Fr` in many, so this is
what checks the digests below. -/
def residueX5 (x : ℕ) : ℕ :=
  let x2 := x * x % r
  x2 * x2 % r * x % r

/-- A row times the state, in residues. -/
def residueRow : List ℕ → List ℕ → ℕ
  | c :: cs, x :: xs => (c * x + residueRow cs xs) % r
  | _, _ => 0

/-- Adding the round's constants. -/
def residueArk : List ℕ → List ℕ → List ℕ
  | x :: xs, c :: cs => (x + c) :: residueArk xs cs
  | _, _ => []

/-- The S-box, on all of the state or on its first element. -/
def residueSbox (full : Bool) : List ℕ → List ℕ
  | [] => []
  | x :: xs => residueX5 x :: if full then xs.map residueX5 else xs

/-- The rounds that remain. -/
def residueRounds (t : ℕ) (M : List (List ℕ)) :
    (remaining i : ℕ) → (C state : List ℕ) → List ℕ
  | 0, _, _, state => state
  | remaining + 1, i, C, state =>
      let full := decide (i < nF / 2) || decide (nF / 2 + nP ≤ i)
      residueRounds t M remaining (i + 1) (C.drop t)
        (M.map fun cs => residueRow cs (residueSbox full (residueArk state C)))

/-- The permutation's first element. -/
def residuePermute (t : ℕ) (C : List Fr) (M : List (List Fr))
    (inputs : List Fr) : ℕ :=
  (residueRounds t (M.map (List.map ZMod.val)) (nF + nP) 0
    (C.map ZMod.val) (0 :: inputs.map ZMod.val)).headD 0

/-- The residues of a list as field elements. -/
def elements (xs : List ℕ) : List Fr := xs.map Nat.cast

theorem elements_map_val (xs : List Fr) :
    elements (xs.map ZMod.val) = xs := by
  unfold elements
  rw [List.map_map]
  exact (List.map_congr_left fun x _ => ZMod.natCast_zmod_val x).trans
    (List.map_id xs)

theorem cast_residueX5 (x : ℕ) : ((residueX5 x : ℕ) : Fr) = x5 (x : Fr) := by
  unfold residueX5 x5
  simp only [ZMod.natCast_mod, Nat.cast_mul]

theorem cast_residueRow (cs xs : List ℕ) :
    ((residueRow cs xs : ℕ) : Fr) = row (elements cs) (elements xs) := by
  induction cs generalizing xs with
  | nil => cases xs <;> exact Nat.cast_zero
  | cons c cs ih =>
      cases xs with
      | nil => exact Nat.cast_zero
      | cons x xs =>
          show (((c * x + residueRow cs xs) % r : ℕ) : Fr)
            = (c : Fr) * (x : Fr) + row (elements cs) (elements xs)
          rw [ZMod.natCast_mod, Nat.cast_add, Nat.cast_mul, ih]

theorem elements_residueArk (xs cs : List ℕ) :
    elements (residueArk xs cs) = ark (elements xs) (elements cs) := by
  induction xs generalizing cs with
  | nil => cases cs <;> rfl
  | cons x xs ih =>
      cases cs with
      | nil => rfl
      | cons c cs =>
          show ((x + c : ℕ) : Fr) :: elements (residueArk xs cs)
            = ((x : Fr) + (c : Fr)) :: ark (elements xs) (elements cs)
          rw [ih, Nat.cast_add]

theorem elements_residueSbox (full : Bool) (xs : List ℕ) :
    elements (residueSbox full xs) = sbox full (elements xs) := by
  cases xs with
  | nil => rfl
  | cons x xs =>
      show ((residueX5 x : ℕ) : Fr)
          :: elements (if full then xs.map residueX5 else xs)
        = x5 (x : Fr)
          :: if full then (elements xs).map x5 else elements xs
      rw [cast_residueX5]
      cases full with
      | false => rfl
      | true =>
          congr 1
          show List.map Nat.cast (xs.map residueX5)
            = (xs.map Nat.cast).map x5
          rw [List.map_map, List.map_map]
          exact List.map_congr_left fun y _ => cast_residueX5 y

theorem elements_residueRounds (t : ℕ) (M : List (List ℕ))
    (remaining i : ℕ) (C state : List ℕ) :
    elements (residueRounds t M remaining i C state)
      = rounds t (M.map elements) remaining i (elements C)
          (elements state) := by
  induction remaining generalizing i C state with
  | zero => rfl
  | succ remaining ih =>
      unfold residueRounds rounds
      rw [ih]
      congr 1
      · exact List.map_drop ..
      · unfold m
        rw [elements, List.map_map, List.map_map, ← elements_residueArk,
          ← elements_residueSbox]
        exact List.map_congr_left fun cs _ => cast_residueRow cs _

theorem cast_residuePermute (t : ℕ) (C : List Fr) (M : List (List Fr))
    (inputs : List Fr) :
    ((residuePermute t C M inputs : ℕ) : Fr) = permute t C M inputs := by
  have hrounds := elements_residueRounds t (M.map (List.map ZMod.val))
    (nF + nP) 0 (C.map ZMod.val) (0 :: inputs.map ZMod.val)
  have hM : (M.map (List.map ZMod.val)).map elements = M := by
    rw [List.map_map]
    exact (List.map_congr_left fun cs _ => elements_map_val cs).trans
      (List.map_id M)
  rw [hM, elements_map_val,
    show elements (0 :: inputs.map ZMod.val) = 0 :: inputs from
      congrArg₂ List.cons Nat.cast_zero (elements_map_val inputs)] at hrounds
  unfold residuePermute permute
  rw [← hrounds]
  cases residueRounds t (M.map (List.map ZMod.val)) (nF + nP) 0
      (C.map ZMod.val) (0 :: inputs.map ZMod.val) with
  | nil => exact Nat.cast_zero
  | cons x xs => rfl

end Poseidon255

open Poseidon255 in
/-- Template `Poseidon255(nInputs)` for one, two and three inputs. No
other arity occurs in the protocol. -/
def poseidon255 (inputs : List Fr) : Fr :=
  match inputs.length with
  | 1 => permute 2 constants2 matrix2 inputs
  | 2 => permute 3 constants3 matrix3 inputs
  | 3 => permute 4 constants4 matrix4 inputs
  | _ => 0

open Poseidon255 in
/-- The same on residues. -/
def poseidonResidue (inputs : List Fr) : ℕ :=
  match inputs.length with
  | 1 => residuePermute 2 constants2 matrix2 inputs
  | 2 => residuePermute 3 constants3 matrix3 inputs
  | 3 => residuePermute 4 constants4 matrix4 inputs
  | _ => 0

theorem cast_poseidonResidue (inputs : List Fr) :
    ((poseidonResidue inputs : ℕ) : Fr) = poseidon255 inputs := by
  unfold poseidonResidue poseidon255
  split
  · exact Poseidon255.cast_residuePermute ..
  · exact Poseidon255.cast_residuePermute ..
  · exact Poseidon255.cast_residuePermute ..
  · exact Nat.cast_zero

-- ========================================================= evaluation

/-- A hash read from a table first. -/
def tabulated (hash : List Fr → Fr) (table : List (List Fr × Fr))
    (inputs : List Fr) : Fr :=
  match table.lookup inputs with
  | some digest => digest
  | none => hash inputs

/-- With right entries the table changes nothing. -/
theorem tabulated_eq {hash : List Fr → Fr} {table : List (List Fr × Fr)}
    (h : ∀ entry ∈ table, hash entry.1 = entry.2) :
    tabulated hash table = hash := by
  funext inputs
  unfold tabulated
  induction table with
  | nil => rfl
  | cons entry table ih =>
      obtain ⟨key, digest⟩ := entry
      have hrest := ih fun e he => h e (List.mem_cons_of_mem _ he)
      rw [List.lookup_cons]
      cases hkey : inputs == key with
      | true =>
          rw [eq_of_beq hkey]
          exact (h (key, digest) (List.mem_cons_self ..)).symm
      | false => exact hrest

/-- Right entries with different digests do not collide. -/
theorem tabulated_injOn {hash : List Fr → Fr} {table : List (List Fr × Fr)}
    (h : ∀ entry ∈ table, hash entry.1 = entry.2)
    (hnodup : (table.map Prod.snd).Nodup) :
    Set.InjOn (tabulated hash table)
      { inputs | inputs ∈ table.map Prod.fst } := by
  rw [tabulated_eq h]
  intro x hx y hy heq
  obtain ⟨ex, hex, rfl⟩ := List.mem_map.mp hx
  obtain ⟨ey, hey, rfl⟩ := List.mem_map.mp hy
  rw [h ex hex, h ey hey] at heq
  rw [List.inj_on_of_nodup_map hnodup hex hey heq]

/-- A table with its digests checked, on residues. -/
structure DigestTable where
  entries : List (List Fr × Fr)
  residues : ∀ entry ∈ entries, poseidonResidue entry.1 = entry.2.val

theorem DigestTable.right (t : DigestTable) : ∀ entry ∈ t.entries,
    poseidon255 entry.1 = entry.2 := by
  intro entry hentry
  rw [← cast_poseidonResidue, t.residues entry hentry,
    ZMod.natCast_zmod_val]

-- =========================================================== digests

/-- Digests of the padding nodes, of a few notes and of the trees over
them, in the order a run meets them. -/
def digests : List (List Fr × Fr) := [
  ([0, 0],
   0x720772992425c4618eaf8a7ff4b6ad5333a76fe17dd3624e2329a57dfaaa505e),
  ([0x720772992425c4618eaf8a7ff4b6ad5333a76fe17dd3624e2329a57dfaaa505e,
    0x720772992425c4618eaf8a7ff4b6ad5333a76fe17dd3624e2329a57dfaaa505e],
   0x4a631147afb4978b80f7d8c40526ca2815e3587a088011ed24d11215d549fe88),
  ([0x4a631147afb4978b80f7d8c40526ca2815e3587a088011ed24d11215d549fe88,
    0x4a631147afb4978b80f7d8c40526ca2815e3587a088011ed24d11215d549fe88],
   0x3d80cb9c131f7c003cfb82ad7580b88420c216204962cf952256dc785ff68839),
  ([0x3d80cb9c131f7c003cfb82ad7580b88420c216204962cf952256dc785ff68839,
    0x3d80cb9c131f7c003cfb82ad7580b88420c216204962cf952256dc785ff68839],
   0x571de3db51ffb4a0181a0b56a613726377dbd093265c4c3800f6c4595079c5c8),
  ([0x571de3db51ffb4a0181a0b56a613726377dbd093265c4c3800f6c4595079c5c8,
    0x571de3db51ffb4a0181a0b56a613726377dbd093265c4c3800f6c4595079c5c8],
   0x3710eeae180bad05ae19ce0bcc836ad2dee7fb9835a00f2ac4675466a0eef347),
  ([0x3710eeae180bad05ae19ce0bcc836ad2dee7fb9835a00f2ac4675466a0eef347,
    0x3710eeae180bad05ae19ce0bcc836ad2dee7fb9835a00f2ac4675466a0eef347],
   0x30de0f3432e12933f0fe438a960eeb42855c7d666a378b2ebc43aff37c52d053),
  ([0x30de0f3432e12933f0fe438a960eeb42855c7d666a378b2ebc43aff37c52d053,
    0x30de0f3432e12933f0fe438a960eeb42855c7d666a378b2ebc43aff37c52d053],
   0x3f6004a2a18568e13c38e4cafe62cb89f10142516f1c217617885d33a54e4dff),
  ([0x3f6004a2a18568e13c38e4cafe62cb89f10142516f1c217617885d33a54e4dff,
    0x3f6004a2a18568e13c38e4cafe62cb89f10142516f1c217617885d33a54e4dff],
   0xf014e0c4bc64f4b27d439c1d94837f99e4d9df3a4c9a062c5294c1a0842eea1),
  ([0xf014e0c4bc64f4b27d439c1d94837f99e4d9df3a4c9a062c5294c1a0842eea1,
    0xf014e0c4bc64f4b27d439c1d94837f99e4d9df3a4c9a062c5294c1a0842eea1],
   0x70bf7834ccd244e48fa857920f61b6202cd1dcf49e3017164c82c30ff56cec99),
  ([0x70bf7834ccd244e48fa857920f61b6202cd1dcf49e3017164c82c30ff56cec99,
    0x70bf7834ccd244e48fa857920f61b6202cd1dcf49e3017164c82c30ff56cec99],
   0x1ec4b50cea868b8ae6ac178b403ed3bcc9a2340e99e4ac0cff7ae09c51d4ca0b),
  ([0x1ec4b50cea868b8ae6ac178b403ed3bcc9a2340e99e4ac0cff7ae09c51d4ca0b,
    0x1ec4b50cea868b8ae6ac178b403ed3bcc9a2340e99e4ac0cff7ae09c51d4ca0b],
   0x2950a7758b1c3583fa951dd305922403108abe2c0c41bb3f667fae3c53f8ac74),
  ([0x2950a7758b1c3583fa951dd305922403108abe2c0c41bb3f667fae3c53f8ac74,
    0x2950a7758b1c3583fa951dd305922403108abe2c0c41bb3f667fae3c53f8ac74],
   0xce3a78a0131c84050bbe2205642f9e176ffe98488dbddb19336b987420f3bde),
  ([11, 0],
   0x2c3031782291118b4729d4e8592ab1b0d9a1f130b5b96043fc51c3e7fdfdb45d),
  ([0x2c3031782291118b4729d4e8592ab1b0d9a1f130b5b96043fc51c3e7fdfdb45d,
    0x720772992425c4618eaf8a7ff4b6ad5333a76fe17dd3624e2329a57dfaaa505e],
   0x6ad774abb97022bcf8cf4d9940a7f5012718f49a97c49f8078827bc822429011),
  ([0xb29782765a764c30ce5abc1136d67fd7ea60f4229e74dd9c8ea26f5dcf7d9a, 100,
    11], 0x11ec96ab0d629741005a590d3f855fa5fd275cc94d3b4f5aa41d81daef296bba),
  ([1001, 2001],
   0x536561a26c0e9b776d8ecd5dc8d42269d2df923699c4c012031528a32d6bc93f),
  ([0x11ec96ab0d629741005a590d3f855fa5fd275cc94d3b4f5aa41d81daef296bba,
    0x536561a26c0e9b776d8ecd5dc8d42269d2df923699c4c012031528a32d6bc93f],
   0x3e1fe45e6ae1d92e9eef1555f6059b4e49a69299c97d2b3a0ab862cc0bb7e18d),
  ([0x80c44eb66e80c734bae9dd0fff63399da6e5bed4b5dc4611e6c83b54043198, 2500,
    11], 0x4b2e21aae5447e2de0bfaf7c4b3ebce755af24103b3ddd725834ae06337bf279),
  ([1002, 2002],
   0xf8462823699aadb49fc1760a55c93061328d3a532e032fd2b0901d4ac47c058),
  ([0x4b2e21aae5447e2de0bfaf7c4b3ebce755af24103b3ddd725834ae06337bf279,
    0xf8462823699aadb49fc1760a55c93061328d3a532e032fd2b0901d4ac47c058],
   0x6b39c8971be3ed9d5335832354bf5054191f5c516e8510c3d4eb61a9ec8df574),
  ([1003, 2003],
   0x6ac92a0c1a71944f3e9183701adb7e9135243fe276098a3e6f5f77feb663e32c),
  ([0x11ec96ab0d629741005a590d3f855fa5fd275cc94d3b4f5aa41d81daef296bba,
    0x6ac92a0c1a71944f3e9183701adb7e9135243fe276098a3e6f5f77feb663e32c],
   0x56ee821772e0822a64651787494aaf7d4a250e0af56c839bb165bb711c74f29c),
  ([0xb29782765a764c30ce5abc1136d67fd7ea60f4229e74dd9c8ea26f5dcf7d9a,
    0xffffffffffffffffffffffffffffffff, 11],
   0x9bcc85dce4ceaad7aa8299bb0b3989de35ea50a052ed33298da7f77ffe7b3cb),
  ([1004, 2004],
   0x6b75030025c0b4ae55d4e024b1939aa6df9635c0c6abdf907807ec6d97769aa0),
  ([0x9bcc85dce4ceaad7aa8299bb0b3989de35ea50a052ed33298da7f77ffe7b3cb,
    0x6b75030025c0b4ae55d4e024b1939aa6df9635c0c6abdf907807ec6d97769aa0],
   0x452849c1039b7172137dac6b29911f2fb2c993c7218cb59667c4f9e30ae248cb),
  ([1005, 2005],
   0x5e879fc47860eddb829f410f71857e80e9f2ebb2622575cc7532ddc2ef580cb0),
  ([0x4b2e21aae5447e2de0bfaf7c4b3ebce755af24103b3ddd725834ae06337bf279,
    0x5e879fc47860eddb829f410f71857e80e9f2ebb2622575cc7532ddc2ef580cb0],
   0x6094ce43aec741c3dd2017638712b9babbb120f56a2ea72d81e1aa09c2567878),
  ([1006, 2006],
   0x5ad8b96a741039424572003c495e4e7fe01b7b878455efad3cb9427f7f3f3a9c),
  ([0x11ec96ab0d629741005a590d3f855fa5fd275cc94d3b4f5aa41d81daef296bba,
    0x5ad8b96a741039424572003c495e4e7fe01b7b878455efad3cb9427f7f3f3a9c],
   0x44122751c9fea06e90855574463279f0de17030fcf00897e98912933b1d936ac),
  ([0xb29782765a764c30ce5abc1136d67fd7ea60f4229e74dd9c8ea26f5dcf7d9a, 1000,
    11], 0x580264259472f99e15399457f764eef3b22d15186cb644e6beb1b49b9df7ae76),
  ([1007, 2007],
   0xdf046ee78242d95705bcf7dae297c0ad0a9e334f968e79755d5bab95d3c29),
  ([0x580264259472f99e15399457f764eef3b22d15186cb644e6beb1b49b9df7ae76,
    0xdf046ee78242d95705bcf7dae297c0ad0a9e334f968e79755d5bab95d3c29],
   0x24ec4a1fd8f3e4a21b12d9f424c02a4340630cabf9d9a6f022928c00f6c94fca),
  ([0xb29782765a764c30ce5abc1136d67fd7ea60f4229e74dd9c8ea26f5dcf7d9a,
    0x73eda753299d7d483339d80809a1d80553bda402fffe5bfefffffffefffffce1, 11],
   0x38aaf9b78db3c6f2d01b258f2d3554ba4599792a43025eb2c720642440bd3098),
  ([1008, 2008],
   0x27f9eba292a39d0c52bad43e8b2c1434ae39c41d33426442c36ea3b943bd58a1),
  ([0x38aaf9b78db3c6f2d01b258f2d3554ba4599792a43025eb2c720642440bd3098,
    0x27f9eba292a39d0c52bad43e8b2c1434ae39c41d33426442c36ea3b943bd58a1],
   0x8dd09014a559cd64c3e6009a6bae41f82515c7f7874a26ef05a28c0a3a30362),
  ([1001, 1, 27],
   0x23b74f9a027275e61d96add61a745bfde6e606fb739f03326db721f447d5bc4b),
  ([1002, 1, 27],
   0x26fc7162c0c70e313ab79705f0856f7bcf36d779eba9eebde649997f53d1002d),
  ([1003, 1, 27],
   0x21e725f5bf9d623b5ba20e677521d23fc3f77539219fe65b2fadf413d8bf70aa),
  ([1001],
   0x3314a4ccc5f0475d4362777f706c2d98021274d78ed42b00830b05e522f74ef1),
  ([0x3e1fe45e6ae1d92e9eef1555f6059b4e49a69299c97d2b3a0ab862cc0bb7e18d, 0],
   0x130f212720725076e1b49a478a02a6ebfa563cfd67e4692af4980a0260bf9c88),
  ([0x130f212720725076e1b49a478a02a6ebfa563cfd67e4692af4980a0260bf9c88,
    0x720772992425c4618eaf8a7ff4b6ad5333a76fe17dd3624e2329a57dfaaa505e],
   0x83f6c9eccbaab610d0814f534e43275e0fd478097b1f7c2b4fcc5d1a6507a71),
  ([0x83f6c9eccbaab610d0814f534e43275e0fd478097b1f7c2b4fcc5d1a6507a71,
    0x4a631147afb4978b80f7d8c40526ca2815e3587a088011ed24d11215d549fe88],
   0x3c035e60a979e2ce6f90ae9de74c878dc1a9d3f11d59b7614407c2b6fcb4e2d7),
  ([0x3c035e60a979e2ce6f90ae9de74c878dc1a9d3f11d59b7614407c2b6fcb4e2d7,
    0x3d80cb9c131f7c003cfb82ad7580b88420c216204962cf952256dc785ff68839],
   0x684b29162fe069b5c89d8751c6841b21f1c1bf279d59f7e15247222bff6fa95d),
  ([0x684b29162fe069b5c89d8751c6841b21f1c1bf279d59f7e15247222bff6fa95d,
    0x571de3db51ffb4a0181a0b56a613726377dbd093265c4c3800f6c4595079c5c8],
   0x14bb4bd38d7ee0fc108a77067d4bec7344d68e83d9b70b79e8f9d85d67593325),
  ([0x14bb4bd38d7ee0fc108a77067d4bec7344d68e83d9b70b79e8f9d85d67593325,
    0x3710eeae180bad05ae19ce0bcc836ad2dee7fb9835a00f2ac4675466a0eef347],
   0x4e4a972f0aecbcec25c841aa0ea12bbc9cfafca10ad3a9b469d73751bb735161),
  ([0x4e4a972f0aecbcec25c841aa0ea12bbc9cfafca10ad3a9b469d73751bb735161,
    0x30de0f3432e12933f0fe438a960eeb42855c7d666a378b2ebc43aff37c52d053],
   0x72f200a9c7247e6cd71c0bfef651541acfb8707de25b5643c1b4b121dac70292),
  ([0x72f200a9c7247e6cd71c0bfef651541acfb8707de25b5643c1b4b121dac70292,
    0x3f6004a2a18568e13c38e4cafe62cb89f10142516f1c217617885d33a54e4dff],
   0x19db42356ea70c6e2839539464d39ff7ee70861e67f149fcaa85b721ea882272),
  ([0x19db42356ea70c6e2839539464d39ff7ee70861e67f149fcaa85b721ea882272,
    0xf014e0c4bc64f4b27d439c1d94837f99e4d9df3a4c9a062c5294c1a0842eea1],
   0x47e5c04f4f10ccf5daf811f5586987b6afccdf4aa6184426109ddbe84693aa68),
  ([0x47e5c04f4f10ccf5daf811f5586987b6afccdf4aa6184426109ddbe84693aa68,
    0x70bf7834ccd244e48fa857920f61b6202cd1dcf49e3017164c82c30ff56cec99],
   0x26873b69446f832b8e33cb447714557a679b3787d00e8b3904a238c776126555),
  ([0x26873b69446f832b8e33cb447714557a679b3787d00e8b3904a238c776126555,
    0x1ec4b50cea868b8ae6ac178b403ed3bcc9a2340e99e4ac0cff7ae09c51d4ca0b],
   0x5274c691449337fbfbf630fe74a52e214907afda8069ea2a0ae0506e521f6d6d),
  ([0x5274c691449337fbfbf630fe74a52e214907afda8069ea2a0ae0506e521f6d6d,
    0x2950a7758b1c3583fa951dd305922403108abe2c0c41bb3f667fae3c53f8ac74],
   0x35e6b0c29ba9945ec64cf83e35ab30c1abd8e47ac06e30e50ccd04ee0e045888),
  ([0x3e1fe45e6ae1d92e9eef1555f6059b4e49a69299c97d2b3a0ab862cc0bb7e18d,
    0x6b39c8971be3ed9d5335832354bf5054191f5c516e8510c3d4eb61a9ec8df574],
   0x471a15941ce192ff7ea98e3a203bf5598997643e3e1b2d1f9fc7d7805e7065d4),
  ([0x471a15941ce192ff7ea98e3a203bf5598997643e3e1b2d1f9fc7d7805e7065d4,
    0x720772992425c4618eaf8a7ff4b6ad5333a76fe17dd3624e2329a57dfaaa505e],
   0x39f54a2aa45cb2a2c6e5311c5736093521ffb0cebb6caddbc5b3cc9b8a7159f8),
  ([0x39f54a2aa45cb2a2c6e5311c5736093521ffb0cebb6caddbc5b3cc9b8a7159f8,
    0x4a631147afb4978b80f7d8c40526ca2815e3587a088011ed24d11215d549fe88],
   0x5586d4edaadf05e9ada52c2db7afc6a60b636c756815430ddfe31aab582ecf74),
  ([0x5586d4edaadf05e9ada52c2db7afc6a60b636c756815430ddfe31aab582ecf74,
    0x3d80cb9c131f7c003cfb82ad7580b88420c216204962cf952256dc785ff68839],
   0xaf425ad297af6e58140a3188e1da9bd0c9be46d6874d5c1fd44e75f82bf02f6),
  ([0xaf425ad297af6e58140a3188e1da9bd0c9be46d6874d5c1fd44e75f82bf02f6,
    0x571de3db51ffb4a0181a0b56a613726377dbd093265c4c3800f6c4595079c5c8],
   0x2eea0b0821511170c4d29173be07eecfd05f503578c95f98577324d0036b2152),
  ([0x2eea0b0821511170c4d29173be07eecfd05f503578c95f98577324d0036b2152,
    0x3710eeae180bad05ae19ce0bcc836ad2dee7fb9835a00f2ac4675466a0eef347],
   0x6c1784c96736646a17c61a3947369338803f133c37654ada19b21e743c315527),
  ([0x6c1784c96736646a17c61a3947369338803f133c37654ada19b21e743c315527,
    0x30de0f3432e12933f0fe438a960eeb42855c7d666a378b2ebc43aff37c52d053],
   0x420222fbe17d116bbdc6c6245106af902e4c142e5c1c1199b6c48b117f436202),
  ([0x420222fbe17d116bbdc6c6245106af902e4c142e5c1c1199b6c48b117f436202,
    0x3f6004a2a18568e13c38e4cafe62cb89f10142516f1c217617885d33a54e4dff],
   0x4e0fdfc0e487de2b3015ebcb79d77f0294242c4ccc800e5a6aedd2a98ac77e1f),
  ([0x4e0fdfc0e487de2b3015ebcb79d77f0294242c4ccc800e5a6aedd2a98ac77e1f,
    0xf014e0c4bc64f4b27d439c1d94837f99e4d9df3a4c9a062c5294c1a0842eea1],
   0x2746bd02ca98c62cc938532178c2fb21a6b0626fc894aecfab6a654403843103),
  ([0x2746bd02ca98c62cc938532178c2fb21a6b0626fc894aecfab6a654403843103,
    0x70bf7834ccd244e48fa857920f61b6202cd1dcf49e3017164c82c30ff56cec99],
   0x6169e3de369e663d31a40d965e0a70b570d0adbf9732a59322f1ba2f5a53873d),
  ([0x6169e3de369e663d31a40d965e0a70b570d0adbf9732a59322f1ba2f5a53873d,
    0x1ec4b50cea868b8ae6ac178b403ed3bcc9a2340e99e4ac0cff7ae09c51d4ca0b],
   0x53a9bfb8f4184b61eaa7ba6fe5b0d9682d432ed75e9e281dc7c15c6aef10b853),
  ([0x53a9bfb8f4184b61eaa7ba6fe5b0d9682d432ed75e9e281dc7c15c6aef10b853,
    0x2950a7758b1c3583fa951dd305922403108abe2c0c41bb3f667fae3c53f8ac74],
   0x28ade2d8832c5c0c709df59c8fcb5eb17d6e1d7970b0d279847b77677545cac),
  ([0x6094ce43aec741c3dd2017638712b9babbb120f56a2ea72d81e1aa09c2567878, 0],
   0x56cdf90e9e04674125e91b4b19c6d1ae6ce50a6343762bd95dd973fcc83b3ebb),
  ([0x471a15941ce192ff7ea98e3a203bf5598997643e3e1b2d1f9fc7d7805e7065d4,
    0x56cdf90e9e04674125e91b4b19c6d1ae6ce50a6343762bd95dd973fcc83b3ebb],
   0x3621c1daff21b59121c3d70a7c2924e2eb8d86fcd64be45289e59a17d2e268f4),
  ([0x3621c1daff21b59121c3d70a7c2924e2eb8d86fcd64be45289e59a17d2e268f4,
    0x4a631147afb4978b80f7d8c40526ca2815e3587a088011ed24d11215d549fe88],
   0x5796430d3096a2ab2c9ebc0deb751fe26589e42ce9f314f04d60ba19fc5d9ccc),
  ([0x5796430d3096a2ab2c9ebc0deb751fe26589e42ce9f314f04d60ba19fc5d9ccc,
    0x3d80cb9c131f7c003cfb82ad7580b88420c216204962cf952256dc785ff68839],
   0x4d6355975f36c8315e8a8120f595c6c9cca10a34aed7419e732bc6d9104d914a),
  ([0x4d6355975f36c8315e8a8120f595c6c9cca10a34aed7419e732bc6d9104d914a,
    0x571de3db51ffb4a0181a0b56a613726377dbd093265c4c3800f6c4595079c5c8],
   0x4544adc9a17ed033bbf28c14a3255801366dbffb41889d29d016414095f0db59),
  ([0x4544adc9a17ed033bbf28c14a3255801366dbffb41889d29d016414095f0db59,
    0x3710eeae180bad05ae19ce0bcc836ad2dee7fb9835a00f2ac4675466a0eef347],
   0x128b4345f2280ad95a84f5dd8613137d88ff7e805f356e90e9c5df0763554563),
  ([0x128b4345f2280ad95a84f5dd8613137d88ff7e805f356e90e9c5df0763554563,
    0x30de0f3432e12933f0fe438a960eeb42855c7d666a378b2ebc43aff37c52d053],
   0x707eb2520b4a4ae2f9afbf7e19a48c493cfe0cce5d00ce1d1e3ea2b2b43fef64),
  ([0x707eb2520b4a4ae2f9afbf7e19a48c493cfe0cce5d00ce1d1e3ea2b2b43fef64,
    0x3f6004a2a18568e13c38e4cafe62cb89f10142516f1c217617885d33a54e4dff],
   0x37113412b7739200bdf607e7afb3d4a4fb3ae60df9621389368b00d6d783bbc),
  ([0x37113412b7739200bdf607e7afb3d4a4fb3ae60df9621389368b00d6d783bbc,
    0xf014e0c4bc64f4b27d439c1d94837f99e4d9df3a4c9a062c5294c1a0842eea1],
   0x63aa813f4ab7a7532841886f8a80ec39cb5df3125acf85b6e3fb18f5f7411577),
  ([0x63aa813f4ab7a7532841886f8a80ec39cb5df3125acf85b6e3fb18f5f7411577,
    0x70bf7834ccd244e48fa857920f61b6202cd1dcf49e3017164c82c30ff56cec99],
   0x182d9e96ea009ab8943a5d240e8bf76a709f424b6a8b886dab5b05e14661ce2d),
  ([0x182d9e96ea009ab8943a5d240e8bf76a709f424b6a8b886dab5b05e14661ce2d,
    0x1ec4b50cea868b8ae6ac178b403ed3bcc9a2340e99e4ac0cff7ae09c51d4ca0b],
   0x9f222df53cff5fc4d2c93071152f6dbfa8dc104f126f30fd2b08a6e11aac9ce),
  ([0x9f222df53cff5fc4d2c93071152f6dbfa8dc104f126f30fd2b08a6e11aac9ce,
    0x2950a7758b1c3583fa951dd305922403108abe2c0c41bb3f667fae3c53f8ac74],
   0x533b9105c2da6e9e2707e578d0e496551712add4e7b588281ef852d990a66e39),
  ([0x6094ce43aec741c3dd2017638712b9babbb120f56a2ea72d81e1aa09c2567878,
    0x44122751c9fea06e90855574463279f0de17030fcf00897e98912933b1d936ac],
   0x43abd86080451eeb7e34173bbabb0c73f6fbcc2809168f1b1ccaeed6f09212ca),
  ([0x471a15941ce192ff7ea98e3a203bf5598997643e3e1b2d1f9fc7d7805e7065d4,
    0x43abd86080451eeb7e34173bbabb0c73f6fbcc2809168f1b1ccaeed6f09212ca],
   0x398cd719a373df7f8bfa85e4ba95046fdc9d1276cc3ddc9702909d384f2ed6af),
  ([0x398cd719a373df7f8bfa85e4ba95046fdc9d1276cc3ddc9702909d384f2ed6af,
    0x4a631147afb4978b80f7d8c40526ca2815e3587a088011ed24d11215d549fe88],
   0x10beba2cec1f143095f281ecf54d2783c97bb916d5e15878916a8d367738d9c8),
  ([0x10beba2cec1f143095f281ecf54d2783c97bb916d5e15878916a8d367738d9c8,
    0x3d80cb9c131f7c003cfb82ad7580b88420c216204962cf952256dc785ff68839],
   0x21006a5807e4c4b4863f94da0ef2c2d851a2a5d4e5ea44c7b2a4294f4b15f0d),
  ([0x21006a5807e4c4b4863f94da0ef2c2d851a2a5d4e5ea44c7b2a4294f4b15f0d,
    0x571de3db51ffb4a0181a0b56a613726377dbd093265c4c3800f6c4595079c5c8],
   0x52da4e2a164c10860e6a3ab3ea8fc6e546a515bda77e5612e2b12d60e5c88ce),
  ([0x52da4e2a164c10860e6a3ab3ea8fc6e546a515bda77e5612e2b12d60e5c88ce,
    0x3710eeae180bad05ae19ce0bcc836ad2dee7fb9835a00f2ac4675466a0eef347],
   0x67e37bba1166cea8891be86c1627210a15bb2dd784efd8b29165db5399f8f280),
  ([0x67e37bba1166cea8891be86c1627210a15bb2dd784efd8b29165db5399f8f280,
    0x30de0f3432e12933f0fe438a960eeb42855c7d666a378b2ebc43aff37c52d053],
   0x2523d62d39c80fe9c24769ed1948bb2de83d1db9bb9d2cecbc0225ccf5f8c23f),
  ([0x2523d62d39c80fe9c24769ed1948bb2de83d1db9bb9d2cecbc0225ccf5f8c23f,
    0x3f6004a2a18568e13c38e4cafe62cb89f10142516f1c217617885d33a54e4dff],
   0x50f8a5c8e3fd9c5671c79184095a311ebae2d3ee95b7eb3b5a13d7807f06f0b5),
  ([0x50f8a5c8e3fd9c5671c79184095a311ebae2d3ee95b7eb3b5a13d7807f06f0b5,
    0xf014e0c4bc64f4b27d439c1d94837f99e4d9df3a4c9a062c5294c1a0842eea1],
   0x5514f62b3cbabc57543ba68ed96e3ec3bc922ea294138f59ebc7ff06aa46e3d9),
  ([0x5514f62b3cbabc57543ba68ed96e3ec3bc922ea294138f59ebc7ff06aa46e3d9,
    0x70bf7834ccd244e48fa857920f61b6202cd1dcf49e3017164c82c30ff56cec99],
   0x2bf0645fa6b8d2973770c8bba36ee9478ab89750784bab8019e49a7ecf348aae),
  ([0x2bf0645fa6b8d2973770c8bba36ee9478ab89750784bab8019e49a7ecf348aae,
    0x1ec4b50cea868b8ae6ac178b403ed3bcc9a2340e99e4ac0cff7ae09c51d4ca0b],
   0x31ae681409deea52e754e6e0a9f9636d9ae0c55d5a8611b2032a7441865b8f4),
  ([0x31ae681409deea52e754e6e0a9f9636d9ae0c55d5a8611b2032a7441865b8f4,
    0x2950a7758b1c3583fa951dd305922403108abe2c0c41bb3f667fae3c53f8ac74],
   0x3851d8f552a0d3d67ee231ab79862a3e04654ae99a2548cdb401b6c5f678c86),
  ([0x452849c1039b7172137dac6b29911f2fb2c993c7218cb59667c4f9e30ae248cb, 0],
   0x22c65dce300344bb2493b5644c76e91da97b4d725b196506944f65d97167ff99),
  ([0x22c65dce300344bb2493b5644c76e91da97b4d725b196506944f65d97167ff99,
    0x720772992425c4618eaf8a7ff4b6ad5333a76fe17dd3624e2329a57dfaaa505e],
   0x5a213e008bc490d45ee464c1552f632667307ea7d30a8dead1dc584af5962cf5),
  ([0x5a213e008bc490d45ee464c1552f632667307ea7d30a8dead1dc584af5962cf5,
    0x4a631147afb4978b80f7d8c40526ca2815e3587a088011ed24d11215d549fe88],
   0x1c1b7832ed50238cc4d031c6f01bf8f84b1327ec7d3e58d6742871a3a6247dbd),
  ([0x1c1b7832ed50238cc4d031c6f01bf8f84b1327ec7d3e58d6742871a3a6247dbd,
    0x3d80cb9c131f7c003cfb82ad7580b88420c216204962cf952256dc785ff68839],
   0x5403d144771625fa8ac49fd964efef51cda493df5b4416bf9cf870d22ceec3f1),
  ([0x5403d144771625fa8ac49fd964efef51cda493df5b4416bf9cf870d22ceec3f1,
    0x571de3db51ffb4a0181a0b56a613726377dbd093265c4c3800f6c4595079c5c8],
   0x6d4928ac2d5a5a30b30c92a14e73c36c48883c39846c034a1544973ed90ccacf),
  ([0x6d4928ac2d5a5a30b30c92a14e73c36c48883c39846c034a1544973ed90ccacf,
    0x3710eeae180bad05ae19ce0bcc836ad2dee7fb9835a00f2ac4675466a0eef347],
   0x61dd5af7c3d893b6b23ca55776c5c7d428f825189e1435aa277eed8417a32001),
  ([0x61dd5af7c3d893b6b23ca55776c5c7d428f825189e1435aa277eed8417a32001,
    0x30de0f3432e12933f0fe438a960eeb42855c7d666a378b2ebc43aff37c52d053],
   0x4f07bdbea3d7140328c1e3ac5723387f7d3686575de6b0549d5d6b04a6d4a7a1),
  ([0x4f07bdbea3d7140328c1e3ac5723387f7d3686575de6b0549d5d6b04a6d4a7a1,
    0x3f6004a2a18568e13c38e4cafe62cb89f10142516f1c217617885d33a54e4dff],
   0x3b6a3a9c8dbbfb1f5ad7484b94841490a6e4df49c245624ffbed13d756f8c576),
  ([0x3b6a3a9c8dbbfb1f5ad7484b94841490a6e4df49c245624ffbed13d756f8c576,
    0xf014e0c4bc64f4b27d439c1d94837f99e4d9df3a4c9a062c5294c1a0842eea1],
   0x2a1338dab7dd8320279f85a83773468fe78640a4ee334d33ab6921b6578b2e0b),
  ([0x2a1338dab7dd8320279f85a83773468fe78640a4ee334d33ab6921b6578b2e0b,
    0x70bf7834ccd244e48fa857920f61b6202cd1dcf49e3017164c82c30ff56cec99],
   0x3259907c9c383e5c1d0f472c66ff2de92f22055b071a64a7e3dba0ba4672f752),
  ([0x3259907c9c383e5c1d0f472c66ff2de92f22055b071a64a7e3dba0ba4672f752,
    0x1ec4b50cea868b8ae6ac178b403ed3bcc9a2340e99e4ac0cff7ae09c51d4ca0b],
   0x3d102e0d96e127a0b4d888c72f7bade9129e610e5dd43841a62a323827ec50b3),
  ([0x3d102e0d96e127a0b4d888c72f7bade9129e610e5dd43841a62a323827ec50b3,
    0x2950a7758b1c3583fa951dd305922403108abe2c0c41bb3f667fae3c53f8ac74],
   0x7d39ec0c2dbf53739fb95aa500ef3908cc630cd5056a36d68eef2a2d87f1c28),
  ([0x3e1fe45e6ae1d92e9eef1555f6059b4e49a69299c97d2b3a0ab862cc0bb7e18d,
    0x56ee821772e0822a64651787494aaf7d4a250e0af56c839bb165bb711c74f29c],
   0x495ece6a76d9040784dd8bd8d994a4062e3bf28167282bd5d0e566da277eaa1c),
  ([0x495ece6a76d9040784dd8bd8d994a4062e3bf28167282bd5d0e566da277eaa1c,
    0x720772992425c4618eaf8a7ff4b6ad5333a76fe17dd3624e2329a57dfaaa505e],
   0x14722973d2d2ed6ad24daf2844ef9c52f174ef5c793a778a5d4400af3ccee0b),
  ([0x14722973d2d2ed6ad24daf2844ef9c52f174ef5c793a778a5d4400af3ccee0b,
    0x4a631147afb4978b80f7d8c40526ca2815e3587a088011ed24d11215d549fe88],
   0x5b482a544c0da2d006b8ed4e65baad4802ae23e84a869e5a9c0167cf04eb5607),
  ([0x5b482a544c0da2d006b8ed4e65baad4802ae23e84a869e5a9c0167cf04eb5607,
    0x3d80cb9c131f7c003cfb82ad7580b88420c216204962cf952256dc785ff68839],
   0x69fc85aa3b6cb634ea1c81e57f866bd157b6e04c13534a83ecc91e9e9fceb1e4),
  ([0x69fc85aa3b6cb634ea1c81e57f866bd157b6e04c13534a83ecc91e9e9fceb1e4,
    0x571de3db51ffb4a0181a0b56a613726377dbd093265c4c3800f6c4595079c5c8],
   0x1186a6f2ff4a1304f252a0f705f96061caf6f3d92f1924311799b6ed707c3645),
  ([0x1186a6f2ff4a1304f252a0f705f96061caf6f3d92f1924311799b6ed707c3645,
    0x3710eeae180bad05ae19ce0bcc836ad2dee7fb9835a00f2ac4675466a0eef347],
   0x4c51e5cef97d5a1050e81fc32ab2634b01184aea2b38faab1938011cc4a54412),
  ([0x4c51e5cef97d5a1050e81fc32ab2634b01184aea2b38faab1938011cc4a54412,
    0x30de0f3432e12933f0fe438a960eeb42855c7d666a378b2ebc43aff37c52d053],
   0x49d47530a51127bee58436162336564c92eef5571438d4193fb8c6e80cce1b79),
  ([0x49d47530a51127bee58436162336564c92eef5571438d4193fb8c6e80cce1b79,
    0x3f6004a2a18568e13c38e4cafe62cb89f10142516f1c217617885d33a54e4dff],
   0x156936dd066703f3a19a78f3245d1bf26ab415f52d6637cf6b8ad16c83d4d8e0),
  ([0x156936dd066703f3a19a78f3245d1bf26ab415f52d6637cf6b8ad16c83d4d8e0,
    0xf014e0c4bc64f4b27d439c1d94837f99e4d9df3a4c9a062c5294c1a0842eea1],
   0x6590ffe13b527e738cb67772bd731cf5d99911ba8026686741ec5187396e6120),
  ([0x6590ffe13b527e738cb67772bd731cf5d99911ba8026686741ec5187396e6120,
    0x70bf7834ccd244e48fa857920f61b6202cd1dcf49e3017164c82c30ff56cec99],
   0x45327d00d9e7e9de2669bae295822d7c86562cedcca8606cf064d183beac7a5e),
  ([0x45327d00d9e7e9de2669bae295822d7c86562cedcca8606cf064d183beac7a5e,
    0x1ec4b50cea868b8ae6ac178b403ed3bcc9a2340e99e4ac0cff7ae09c51d4ca0b],
   0x41c59b56096854a7a443ff6ccd604a3936a7cb0d8ca4041b7ed46dfab037876),
  ([0x41c59b56096854a7a443ff6ccd604a3936a7cb0d8ca4041b7ed46dfab037876,
    0x2950a7758b1c3583fa951dd305922403108abe2c0c41bb3f667fae3c53f8ac74],
   0x4093f3d897379cb18ec29dec1f7fece9c945cfb73199a0e55624864a752dde2f),
  ([0x11ec96ab0d629741005a590d3f855fa5fd275cc94d3b4f5aa41d81daef296bba],
   0x6a319ea765bb96003573cf581b71847fc22ade3016f43637bf6e75998412f293),
  ([0x11ec96ab0d629741005a590d3f855fa5fd275cc94d3b4f5aa41d81daef296bba, 1,
    27], 0x5a7d6e429d56427545fe60a91967a5e6b5024d8974b2dba8d4ca5f9c1e96b764),
  ([0x11ec96ab0d629741005a590d3f855fa5fd275cc94d3b4f5aa41d81daef296bba,
    0x3e1fe45e6ae1d92e9eef1555f6059b4e49a69299c97d2b3a0ab862cc0bb7e18d],
   0x3963355a77bb8b056ddeb39b5213d286f396adf3378c57be134f2484c4528d2a),
  ([0x3963355a77bb8b056ddeb39b5213d286f396adf3378c57be134f2484c4528d2a, 0],
   0x45507fe81a3086e417e48fae7036cb5f756cf2b5fb1d8ce2772fdb368d948b79),
  ([0x45507fe81a3086e417e48fae7036cb5f756cf2b5fb1d8ce2772fdb368d948b79,
    0x720772992425c4618eaf8a7ff4b6ad5333a76fe17dd3624e2329a57dfaaa505e],
   0x78470e72aca581c412fd7a66a0f74981d919f3a3f17c6e8725e837b2cdafda2),
  ([0x78470e72aca581c412fd7a66a0f74981d919f3a3f17c6e8725e837b2cdafda2,
    0x4a631147afb4978b80f7d8c40526ca2815e3587a088011ed24d11215d549fe88],
   0x192d59913f4552c64d70f0337bfb3541f1862f79d1bf295ca5fe8c8d1172d898),
  ([0x192d59913f4552c64d70f0337bfb3541f1862f79d1bf295ca5fe8c8d1172d898,
    0x3d80cb9c131f7c003cfb82ad7580b88420c216204962cf952256dc785ff68839],
   0x36bb2179650f0025cb9541f50bfeeed6acf88dc34f6ea15c935a254fffb7aa62),
  ([0x36bb2179650f0025cb9541f50bfeeed6acf88dc34f6ea15c935a254fffb7aa62,
    0x571de3db51ffb4a0181a0b56a613726377dbd093265c4c3800f6c4595079c5c8],
   0xc7609e3e3c1ce77a36c1a7ccc8b15c1aa8977eb2dabfc6485a62ee116734516),
  ([0xc7609e3e3c1ce77a36c1a7ccc8b15c1aa8977eb2dabfc6485a62ee116734516,
    0x3710eeae180bad05ae19ce0bcc836ad2dee7fb9835a00f2ac4675466a0eef347],
   0xa0e19e899ae114f6990522a866f05eb9a7c44da164c6666b08a8b91ac0978f0),
  ([0xa0e19e899ae114f6990522a866f05eb9a7c44da164c6666b08a8b91ac0978f0,
    0x30de0f3432e12933f0fe438a960eeb42855c7d666a378b2ebc43aff37c52d053],
   0x4fda8e6a24aede0ea84397d4ef518bf9a370300d1de2cb633788bcab3d3445bc),
  ([0x4fda8e6a24aede0ea84397d4ef518bf9a370300d1de2cb633788bcab3d3445bc,
    0x3f6004a2a18568e13c38e4cafe62cb89f10142516f1c217617885d33a54e4dff],
   0x5ed88389f539747863b3c58a777125a91e1d01f5e8400befcb4bd42502a6a488),
  ([0x5ed88389f539747863b3c58a777125a91e1d01f5e8400befcb4bd42502a6a488,
    0xf014e0c4bc64f4b27d439c1d94837f99e4d9df3a4c9a062c5294c1a0842eea1],
   0x8319d4523da203cf8dee1cf260f80ea6708d6c20434bc7b40b74b1c9fcd71d3),
  ([0x8319d4523da203cf8dee1cf260f80ea6708d6c20434bc7b40b74b1c9fcd71d3,
    0x70bf7834ccd244e48fa857920f61b6202cd1dcf49e3017164c82c30ff56cec99],
   0x3242e355dfac0b7a708b56c559704ae9b87a83305ec23246b2becb1d1e1d9a63),
  ([0x3242e355dfac0b7a708b56c559704ae9b87a83305ec23246b2becb1d1e1d9a63,
    0x1ec4b50cea868b8ae6ac178b403ed3bcc9a2340e99e4ac0cff7ae09c51d4ca0b],
   0x7903e0794cc35cb95eb1661d2771c82a5eaf8fe437f657b34d39603289efaba)]

/-- The digests computed ahead. -/
def digestTable : DigestTable where
  entries := digests
  residues := by decide +kernel

theorem digests_right : ∀ entry ∈ digests,
    poseidon255 entry.1 = entry.2 := digestTable.right

/-- The digests are pairwise different and none is zero. -/
theorem digests_distinct : (digests.map Prod.snd).Nodup
    ∧ 0 ∉ digests.map Prod.snd := by
  decide +kernel

/-- Poseidon255, evaluated through the table. -/
def poseidonFast : List Fr → Fr := tabulated poseidon255 digests

theorem poseidonFast_eq : poseidonFast = poseidon255 :=
  tabulated_eq digests_right

theorem poseidonFast_injOn : Set.InjOn poseidonFast
    { inputs | inputs ∈ digests.map Prod.fst } :=
  tabulated_injOn digests_right digests_distinct.1

theorem poseidonFast_ne_zero {inputs : List Fr}
    (h : inputs ∈ digests.map Prod.fst) : poseidonFast inputs ≠ 0 := by
  obtain ⟨entry, hentry, rfl⟩ := List.mem_map.mp h
  rw [poseidonFast_eq, digests_right entry hentry]
  intro hzero
  exact digests_distinct.2 (hzero ▸ List.mem_map_of_mem hentry)

end Lumix
