import KrovaCoin.Consensus.Params

/-!
# Checkpoints (`checkpoints.cpp`, the tables of `chainparams.cpp`)

`CCheckpointData` is the table of a network, sorted by height as the `std::map` of the source is, and
never empty; `fEnabled` is the node's `-checkpoints` setting.
-/

namespace KrovaCoin

/-- `MapCheckpoints`: heights and block hashes. -/
abbrev MapCheckpoints := List (Int × Uint256)

/-- `mapCheckpoints` of the main network. -/
def mapCheckpoints : MapCheckpoints := [
  (259201, 0x1c9121bf9329a6234bfd1ea2d91515f19cd96990725265253f4b164283ade5dd),
  (424998, 0xf31e381eedb0ed3ed65fcc98cc71f36012bee32e8efd017c4f9fb0620fd35f6b),
  (616764, 0x29dd0bd1c59484f290896687b4ffb6a49afa5c498caf61967c69a541f8191557),
  (623933, 0xc7aafa648a0f1450157dc93bd4d7448913a85b7448f803b4ab970d91fc2a7da7),
  (791150, 0x8e76f462e4e82d1bd21cb72e1ce1567d4ddda2390f26074ffd1f5d9c270e5e50),
  (795000, 0x4423cceeb9fd574137a18733416275a70fdf95283cc79ad976ca399aa424a443),
  (863787, 0x5b2482eca24caf2a46bb22e0545db7b7037282733faa3a42ec20542509999a64),
  (863795, 0x2ad866818c4866e0d555181daccc628056216c0db431f88a825e84ed4f469067),
  (863805, 0xa755bd9a22b63c70d3db474f4b2b61a1f86c835b290a081bb3ec1ba2103eb4cb),
  (867733, 0x03b26296bf693de5782c76843d2fb649cb66d4b05550c6a79c047ff7e1c3ae15),
  (879650, 0x227e1d2b738b6cd83c46d1d64617934ec899d77cee34336a56e61b71acd10bb2),
  (895400, 0x7796a0274a608fac12d400198174e50beda992c1d522e52e5b95b884bc1beac6),
  (895991, 0xd53013ed7ea5c325b9696c95e07667d6858f8ff7ee13fecfa90827bf3c9ae316),
  (908000, 0x202708f8c289b676fceb832a079ff6b308a28608339acbf7584de533619d014d),
  (1142400, 0x98aff9d605bf123247f98b1e3a02567eb5799d208d78ec30fb89737b1c1f79c5),
  (1679090, 0xf747ce055ba1b12e1f2e842bd480bc647210799359cb2e553ab292065e3419d6),
  (1686229, 0xbb42bf1e886a7c23474634c90893dd3d68a6ccbfea4ac92a98da5cad0c6a6cb7),
  (1778954, 0x0d3241268264a2908d6babf00d9cd1ffb83d93d7bb4e428820127fe227c2029c),
  (1788528, 0xea9243ff8fc079fdd7a04f11fac415de4d98e1bb0dc38db6f79f8f8bbfdbe496),
  (2153200, 0x14e477e597d24549cac5e59d97d32155e6ec2861c1003b42d0566f9bf39b65d5),
  (2356049, 0x62e80d8e193bca84655fb78893b20f54a79f2d71124c4ea37b7ef51a0d5451c4),
  (2365700, 0xb5d0beead57735539abc2db2b0b08cd65db3e5928efd3c3bf3182d5bf013f36c),
  (2678402, 0x580a26ff0a45177a7a6f387f009c5b26140ea48b4790a857d9a796f8b3c25899),
  (3014000, 0x78ad99b7225f73c42238bd7ca841ff700542b92bba75a0ef2ed351caa560f87f),
  (3024000, 0xbe4bc75afcfb9136924810f7483b2695089a366cc4ee27fd6dc3ecd5396e1f0f),
  (3715200, 0xa676b9a598c393c82b949c37dd35013aeda55f5d18ab062349db6a8235972aaa)]

/-- The checkpoints a node uses: its network's table, and whether they are enabled. -/
structure Checkpoints where
  table : MapCheckpoints
  sorted : (table.map Prod.fst).Pairwise (· < ·)
  nonempty : table ≠ []
  fEnabled : Bool

namespace Checkpoints

def main (fEnabled : Bool) : Checkpoints := ⟨mapCheckpoints, by decide, by decide, fEnabled⟩

def find (cp : Checkpoints) (nHeight : Int) : Option Uint256 := cp.table.lookup nHeight

def checkBlock (cp : Checkpoints) (nHeight : Int) (hash : Uint256) (fMatchesCheckpoint : Bool) : Bool :=
  if !cp.fEnabled then true
  else
    match cp.find nHeight with
    | none => !fMatchesCheckpoint
    | some h => hash == h

/-- `Checkpoints::GetTotalBlocksEstimate`: the height of the last checkpoint. -/
def getTotalBlocksEstimate (cp : Checkpoints) : Int :=
  if !cp.fEnabled then 0 else (cp.table.getLast cp.nonempty).1

end Checkpoints

end KrovaCoin
