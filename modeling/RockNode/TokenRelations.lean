import RockNode.AccountQueries
import RockNode.LinkedList

/-!
The token relations of an account are a linked list in the state.

Each relation lies under its token and its account and names the next token; the account names
the first one. `get_token_relationships` follows the links for `number_associations` relations.
-/

namespace RockNode

/-- What the answer says about a relation. -/
def TokenRelation.relationship (relation : TokenRelation) : TokenRelationship :=
  ⟨relation.tokenId, relation.balance.toUInt64, if relation.kycGranted then 1 else 2,
    if relation.frozen then 1 else 2, 0, relation.automaticAssociation⟩

/-- One lookup of the loop: the relation under the token and the account, or the error it ends
with. -/
def findRelation (messages : Messages) (reader : StateReader) (accountId : Option AccountId)
    (tokenId : TokenId) : Except QueryError TokenRelation :=
  match readValue messages reader (relationDbKey messages tokenId accountId) with
  | .error e => .error e
  | .ok none => .error (.internal "Token relationship not found in state")
  | .ok (some ⟨some (.tokenRelationValue relation)⟩) => .ok relation
  | .ok (some _) =>
    .error (.internal "State inconsistency: Expected TokenRelation value, found other type")

section

variable {messages : Messages} {reader : StateReader} {accountId : Option AccountId}

/-- One round of the loop. -/
lemma tokenRelationships_succ (k : ℕ) (tokenId : TokenId) :
    tokenRelationships messages reader accountId (k + 1) (some tokenId) = (do
      let relation ← findRelation messages reader accountId tokenId
      let rest ← tokenRelationships messages reader accountId k relation.nextToken
      .ok (relation.relationship :: rest)) := by
  rw [tokenRelationships, findRelation]
  rcases readValue messages reader (relationDbKey messages tokenId accountId) with
    e | _ | ⟨_ | _ | relation | _⟩ <;> rfl

/-- The loop is a walk over the linked list. -/
lemma tokenRelationships_eq_walk (k : ℕ) (key : Option TokenId) :
    tokenRelationships messages reader accountId k key =
      (LinkedList.walk (findRelation messages reader accountId) TokenRelation.nextToken k key).2.map
        (List.map TokenRelation.relationship) := by
  induction k generalizing key with
  | zero => rfl
  | succ k ih =>
    rcases key with _ | tokenId
    · rfl
    · rw [tokenRelationships_succ]
      rcases hfind : findRelation messages reader accountId tokenId with e | relation
      · rw [LinkedList.walk_error hfind]
        rfl
      · rw [LinkedList.walk_ok hfind]
        change (do
          let rest ← tokenRelationships messages reader accountId k relation.nextToken
          Except.ok (relation.relationship :: rest)) = _
        rw [ih]
        rcases (LinkedList.walk (findRelation messages reader accountId) TokenRelation.nextToken k
          relation.nextToken).2 with e | rest <;> rfl

/-- The entry of a token is one that the loop goes on from. -/
lemma findRelation_eq_ok {tokenId : TokenId} {relation : TokenRelation} :
    findRelation messages reader accountId tokenId = .ok relation ↔
      readValue messages reader (relationDbKey messages tokenId accountId) =
        .ok (some ⟨some (.tokenRelationValue relation)⟩) := by
  unfold findRelation
  rcases readValue messages reader (relationDbKey messages tokenId accountId) with
    e | _ | ⟨_ | _ | relation | _⟩ <;> simp

end

/-- The tokens and their relations form a chain: each relation is stored under its token and the
account, carries the token and leads to the next one, and the last leads nowhere. -/
inductive TokenChain (messages : Messages) (reader : StateReader) (accountId : Option AccountId) :
    Option TokenId → List (TokenId × TokenRelation) → Prop
  | nil : TokenChain messages reader accountId none []
  | cons {tokenId : TokenId} {relation : TokenRelation} {rest : List (TokenId × TokenRelation)}
      (hstored : readValue messages reader (relationDbKey messages tokenId accountId) =
        .ok (some ⟨some (.tokenRelationValue relation)⟩))
      (hcarries : relation.tokenId = some tokenId)
      (hrest : TokenChain messages reader accountId relation.nextToken rest) :
      TokenChain messages reader accountId (some tokenId) ((tokenId, relation) :: rest)

/-- The tokens that the loop looks up. -/
def relationLookups (messages : Messages) (reader : StateReader) (account : Account) :
    List TokenId :=
  (LinkedList.walk (findRelation messages reader account.accountId) TokenRelation.nextToken
    account.numberAssociations.toInt.toNat account.headTokenId).1

/-- The loop comes from the account to the token over these relations. -/
def Reaches (messages : Messages) (reader : StateReader) (account : Account)
    (relations : List TokenRelation) (key : Option TokenId) : Prop :=
  LinkedList.Segment (findRelation messages reader account.accountId) TokenRelation.nextToken
    account.headTokenId relations key

lemma TokenChain.segment {messages : Messages} {reader : StateReader}
    {accountId : Option AccountId} {key : Option TokenId}
    {chain : List (TokenId × TokenRelation)} (h : TokenChain messages reader accountId key chain) :
    LinkedList.Segment (findRelation messages reader accountId) TokenRelation.nextToken key
      (chain.map Prod.snd) none := by
  induction h with
  | nil => exact .nil none
  | cons hstored _ _ ih => exact .cons (findRelation_eq_ok.mpr hstored) ih

/-- **Token relationships are the linked list.** Over a chain the answer is its first relations,
`number_associations` of them at most. In any state at all there are no more lookups than that,
and the answer depends on no other entry; an entry that is reached and is missing or something
else is an error; and an answer is complete: it ends with the chain or with the last
association. -/
theorem tokenRelationships_linkedList (messages : Messages) (reader : StateReader)
    (account : Account) :
    (∀ chain, 0 ≤ account.numberAssociations.toInt →
      TokenChain messages reader account.accountId account.headTokenId chain →
      getTokenRelationships messages reader account =
        .ok ((chain.take (min chain.length account.numberAssociations.toInt.toNat)).map
          fun entry => entry.2.relationship)) ∧
    (relationLookups messages reader account).length ≤ account.numberAssociations.toInt.toNat ∧
    (∀ reader' : StateReader,
      (∀ tokenId ∈ relationLookups messages reader account,
        reader' (relationDbKey messages tokenId account.accountId) =
          reader (relationDbKey messages tokenId account.accountId)) →
      getTokenRelationships messages reader' account =
        getTokenRelationships messages reader account) ∧
    (∀ relations tokenId, Reaches messages reader account relations (some tokenId) →
      relations.length < account.numberAssociations.toInt.toNat →
      (∀ relation, readValue messages reader (relationDbKey messages tokenId account.accountId) ≠
        .ok (some ⟨some (.tokenRelationValue relation)⟩)) →
      ∃ e, getTokenRelationships messages reader account = .error e) ∧
    ∀ answer, getTokenRelationships messages reader account = .ok answer →
      ∃ relations last, Reaches messages reader account relations last ∧
        answer = relations.map TokenRelation.relationship ∧
        (last = none ∨ relations.length = account.numberAssociations.toInt.toNat) := by
  set n := account.numberAssociations.toInt.toNat with hn
  have hwalk : ∀ reader : StateReader, getTokenRelationships messages reader account =
      (LinkedList.walk (findRelation messages reader account.accountId) TokenRelation.nextToken n
        account.headTokenId).2.map (List.map TokenRelation.relationship) :=
    fun _ => tokenRelationships_eq_walk _ _
  have hloop := hwalk reader
  refine ⟨fun chain _ hchain => ?_, LinkedList.walk_length_le _ _, ?_, ?_, ?_⟩
  · rw [hloop, hchain.segment.walk_take]
    simp only [Except.map, ← List.map_take, List.map_map]
    rw [min_comm, ← List.take_eq_take_min]
    rfl
  · intro reader' hsame
    rw [hwalk reader', hloop, LinkedList.walk_congr fun tokenId h => ?_]
    simp only [findRelation, readValue, hsame tokenId h]
  · intro relations tokenId hreach hlt hentry
    obtain ⟨k, hk⟩ : ∃ k, n = relations.length + (k + 1) := ⟨n - relations.length - 1, by omega⟩
    have hpast := LinkedList.Segment.walk hreach (k + 1)
    rcases hfind : findRelation messages reader account.accountId tokenId with e | relation
    · rw [LinkedList.walk_error hfind, ← hk] at hpast
      exact ⟨e, by rw [hloop, hpast]; rfl⟩
    · exact absurd (findRelation_eq_ok.mp hfind) (hentry relation)
  · intro answer hanswer
    rw [hloop] at hanswer
    rcases hresult : (LinkedList.walk (findRelation messages reader account.accountId)
      TokenRelation.nextToken n account.headTokenId).2 with e | relations
    · rw [hresult] at hanswer
      cases hanswer
    · rw [hresult] at hanswer
      obtain ⟨last, hseg, hend⟩ := LinkedList.walk_eq_ok hresult
      exact ⟨relations, last, hseg, (Except.ok.inj hanswer).symm, hend⟩

/-- A relation of account 0.0.7 to the token with the number. -/
def relationTo (num balance : Int64) (nextToken : Option TokenId) : TokenRelation :=
  ⟨some ⟨0, 0, num⟩, balance, false, true, false, nextToken⟩

/-- Account 0.0.7, associated with tokens 0.0.1 and 0.0.2. -/
def holderSeven : Account :=
  { accountId := some idSeven, accountAlias := [], key := none, expirationSecond := 0
    tinybarBalance := 0, memo := "", deleted := false, stakedToMe := 0
    stakePeriodStart := 0, stakedId := none, declineReward := false
    receiverSigRequired := false, headTokenId := some ⟨0, 0, 1⟩, numberOwnedNfts := 0
    maxAutoAssociations := 0, numberAssociations := 2, smartContract := false
    ethereumNonce := 0, autoRenewSeconds := 0, cryptoAllowances := []
    approveForAllNftAllowances := [], tokenAllowances := [] }

/-- The two relations, each under its token and the account. -/
def relationsOfSeven : StateReader := fun key =>
  if key = relationDbKey plainMessages ⟨0, 0, 1⟩ (some idSeven) then
    .ok (some (plainMessages.value.encode
      ⟨some (.tokenRelationValue (relationTo 1 30 (some ⟨0, 0, 2⟩)))⟩))
  else if key = relationDbKey plainMessages ⟨0, 0, 2⟩ (some idSeven) then
    .ok (some (plainMessages.value.encode ⟨some (.tokenRelationValue (relationTo 2 40 none))⟩))
  else .ok none

/-- The relation to the first token leads to the second, and both are answered. -/
theorem tokenRelationships_linkedList_seven :
    TokenChain plainMessages relationsOfSeven (some idSeven) (some ⟨0, 0, 1⟩)
      [(⟨0, 0, 1⟩, relationTo 1 30 (some ⟨0, 0, 2⟩)), (⟨0, 0, 2⟩, relationTo 2 40 none)] ∧
    getTokenRelationships plainMessages relationsOfSeven holderSeven =
      .ok [⟨some ⟨0, 0, 1⟩, 30, 1, 2, 0, false⟩, ⟨some ⟨0, 0, 2⟩, 40, 1, 2, 0, false⟩] := by
  have hkeys : relationDbKey plainMessages ⟨0, 0, 2⟩ (some idSeven) ≠
      relationDbKey plainMessages ⟨0, 0, 1⟩ (some idSeven) := by
    intro heq
    have hkey := plainMessages.key.encode_injective (List.append_cancel_left heq)
    revert hkey
    decide
  have hchain : TokenChain plainMessages relationsOfSeven (some idSeven) (some ⟨0, 0, 1⟩)
      [(⟨0, 0, 1⟩, relationTo 1 30 (some ⟨0, 0, 2⟩)), (⟨0, 0, 2⟩, relationTo 2 40 none)] := by
    refine .cons ?_ rfl (.cons ?_ rfl .nil)
    · simp only [readValue, relationsOfSeven, if_true, Message.decode_encode]
    · simp only [readValue, relationsOfSeven, if_neg hkeys, if_true, Message.decode_encode]
  refine ⟨hchain, ?_⟩
  rw [(tokenRelationships_linkedList plainMessages relationsOfSeven holderSeven).1 _
    (by decide) hchain]
  rfl

end RockNode
