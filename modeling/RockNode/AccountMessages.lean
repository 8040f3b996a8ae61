import RockNode.MapState

/-!
The generated messages behind the account queries.

Of each message the fields that a handler reads are here; a nested message that is only passed on
is a byte string. The numbers of the state ids come with the generated code, too.
-/

namespace RockNode

inductive AccountIdType where
  | accountNum (num : Int64)
  | accountAlias (bytes : Bytes)
  deriving DecidableEq

structure AccountId where
  shardNum : Int64
  realmNum : Int64
  account : Option AccountIdType
  deriving DecidableEq

structure TokenId where
  shardNum : Int64
  realmNum : Int64
  tokenNum : Int64
  deriving DecidableEq

inductive StakedId where
  | stakedAccountId (id : AccountId)
  | stakedNodeId (id : Int64)
  deriving DecidableEq

structure CryptoAllowance where
  spender : Option AccountId
  amount : Int64
  deriving DecidableEq

structure NftAllowance where
  tokenId : Option TokenId
  spender : Option AccountId
  deriving DecidableEq

structure TokenAllowance where
  tokenId : Option TokenId
  spender : Option AccountId
  amount : Int64
  deriving DecidableEq

structure Account where
  accountId : Option AccountId
  accountAlias : Bytes
  key : Option Bytes
  expirationSecond : Int64
  tinybarBalance : Int64
  memo : String
  deleted : Bool
  stakedToMe : Int64
  stakePeriodStart : Int64
  stakedId : Option StakedId
  declineReward : Bool
  receiverSigRequired : Bool
  headTokenId : Option TokenId
  numberOwnedNfts : Int64
  maxAutoAssociations : Int32
  numberAssociations : Int32
  smartContract : Bool
  ethereumNonce : Int64
  autoRenewSeconds : Int64
  cryptoAllowances : List CryptoAllowance
  approveForAllNftAllowances : List NftAllowance
  tokenAllowances : List TokenAllowance
  deriving DecidableEq

structure TokenRelation where
  tokenId : Option TokenId
  balance : Int64
  frozen : Bool
  kycGranted : Bool
  automaticAssociation : Bool
  nextToken : Option TokenId
  deriving DecidableEq

inductive KeyChoice where
  | accountIdKey (id : AccountId)
  | tokenRelationshipKey (tokenId : Option TokenId) (accountId : Option AccountId)
  | other (rest : Bytes)
  deriving DecidableEq

structure MapChangeKey where
  keyChoice : Option KeyChoice
  deriving DecidableEq

inductive ValueChoice where
  | accountValue (account : Account)
  | tokenRelationValue (relation : TokenRelation)
  | other (rest : Bytes)
  deriving DecidableEq

structure MapChangeValue where
  valueChoice : Option ValueChoice
  deriving DecidableEq

/-- The generated code that both sides use. -/
structure Messages where
  key : Message MapChangeKey
  value : Message MapChangeValue
  stateIdAccounts : UInt32
  stateIdTokenRelations : UInt32

/-! ### Generated code with these laws -/

namespace Format

def bool : Format Bool :=
  (sum unit unit).via (fun b => if b then .inr () else .inl ()) (Sum.elim (fun _ => false)
    fun _ => true) (by rintro (_ | _) <;> rfl)

def i64 : Format Int64 := u64.via Int64.toUInt64 UInt64.toInt64 (by simp)

def i32 : Format Int32 :=
  i64.via Int32.toInt64 Int64.toInt32 (by simp)

def char : Format Char :=
  u64.via (fun c => UInt64.ofNat c.toNat) (fun n => Char.ofNat n.toNat) (by
    intro c
    have hlt : c.toNat < 2 ^ 64 := by
      have := c.val.toNat_lt
      change c.val.toNat < _
      omega
    rw [UInt64.toNat_ofNat_of_lt' hlt, Char.ofNat_toNat])

def string : Format String := char.list.via String.toList String.ofList (by simp)

def accountId : Format AccountId :=
  (i64.prod (i64.prod (sum i64 bytes).option)).via
    (fun a => (a.shardNum, a.realmNum, a.account.map fun
      | .accountNum num => .inl num
      | .accountAlias b => .inr b))
    (fun x => ⟨x.1, x.2.1, x.2.2.map (Sum.elim .accountNum .accountAlias)⟩)
    (by rintro ⟨s, r, _ | _ | _⟩ <;> rfl)

def tokenId : Format TokenId :=
  (i64.prod (i64.prod i64)).via (fun t => (t.shardNum, t.realmNum, t.tokenNum))
    (fun x => ⟨x.1, x.2.1, x.2.2⟩) (fun _ => rfl)

def stakedId : Format StakedId :=
  (sum accountId i64).via (fun | .stakedAccountId id => .inl id | .stakedNodeId id => .inr id)
    (Sum.elim .stakedAccountId .stakedNodeId) (by rintro (_ | _) <;> rfl)

def cryptoAllowance : Format CryptoAllowance :=
  (accountId.option.prod i64).via (fun a => (a.spender, a.amount)) (fun x => ⟨x.1, x.2⟩)
    (fun _ => rfl)

def nftAllowance : Format NftAllowance :=
  (tokenId.option.prod accountId.option).via (fun a => (a.tokenId, a.spender))
    (fun x => ⟨x.1, x.2⟩) (fun _ => rfl)

def tokenAllowance : Format TokenAllowance :=
  (tokenId.option.prod (accountId.option.prod i64)).via
    (fun a => (a.tokenId, a.spender, a.amount)) (fun x => ⟨x.1, x.2.1, x.2.2⟩) (fun _ => rfl)

def account : Format Account :=
  (accountId.option.prod (bytes.prod (bytes.option.prod (i64.prod (i64.prod (string.prod (bool.prod
    (i64.prod (i64.prod (stakedId.option.prod (bool.prod (bool.prod (tokenId.option.prod (i64.prod
      (i32.prod (i32.prod (bool.prod (i64.prod (i64.prod (cryptoAllowance.list.prod
        (nftAllowance.list.prod tokenAllowance.list))))))))))))))))))))).via
    (fun ⟨id, al, key, exp, bal, memo, del, toMe, start, sid, decl, sig, head, nfts, auto, assoc,
        contract, nonce, renew, crypto, nft, token⟩ =>
      (id, al, key, exp, bal, memo, del, toMe, start, sid, decl, sig, head, nfts, auto, assoc,
        contract, nonce, renew, crypto, nft, token))
    (fun (id, al, key, exp, bal, memo, del, toMe, start, sid, decl, sig, head, nfts, auto, assoc,
        contract, nonce, renew, crypto, nft, token) =>
      ⟨id, al, key, exp, bal, memo, del, toMe, start, sid, decl, sig, head, nfts, auto, assoc,
        contract, nonce, renew, crypto, nft, token⟩)
    (fun _ => rfl)

def tokenRelation : Format TokenRelation :=
  (tokenId.option.prod (i64.prod (bool.prod (bool.prod (bool.prod tokenId.option))))).via
    (fun r => (r.tokenId, r.balance, r.frozen, r.kycGranted, r.automaticAssociation, r.nextToken))
    (fun (id, bal, frozen, kyc, auto, next) => ⟨id, bal, frozen, kyc, auto, next⟩) (fun _ => rfl)

def mapChangeKey : Format MapChangeKey :=
  (sum accountId (sum (tokenId.option.prod accountId.option) bytes)).option.via
    (fun k => k.keyChoice.map fun
      | .accountIdKey id => .inl id
      | .tokenRelationshipKey token account => .inr (.inl (token, account))
      | .other rest => .inr (.inr rest))
    (fun x => ⟨x.map (Sum.elim .accountIdKey
      (Sum.elim (fun x => .tokenRelationshipKey x.1 x.2) .other))⟩)
    (by rintro ⟨_ | _ | _ | _⟩ <;> rfl)

def mapChangeValue : Format MapChangeValue :=
  (sum account (sum tokenRelation bytes)).option.via
    (fun v => v.valueChoice.map fun
      | .accountValue account => .inl account
      | .tokenRelationValue relation => .inr (.inl relation)
      | .other rest => .inr (.inr rest))
    (fun x => ⟨x.map (Sum.elim .accountValue (Sum.elim .tokenRelationValue .other))⟩)
    (by rintro ⟨_ | _ | _ | _⟩ <;> rfl)

/-- A format as a message type. -/
def message {α : Type} (format : Format α) : Message α where
  encode := format.enc
  decode bytes := ((format.decAll bytes).map Except.ok).getD (.error "failed to decode")
  decode_encode a := by simp

end Format

/-- Messages that store everything as it is, with delimiters. -/
def plainMessages : Messages where
  key := Format.mapChangeKey.message
  value := Format.mapChangeValue.message
  stateIdAccounts := 1
  stateIdTokenRelations := 2

end RockNode
