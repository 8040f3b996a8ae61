import RockNode.AccountMessages

/-!
The queries about accounts: `get_account_info` and `get_account_balance` of the crypto service and
`get_account_details` of the network service.

The handlers know the state manager only by its bytes: each builds the key of the account from the
state id and the encoded key on its own, reads the value and decodes it.
-/

namespace RockNode

/-! ### Answers -/

inductive ResponseCode where
  | ok
  | invalidAccountId
  deriving DecidableEq

structure ResponseHeader where
  nodeTransactionPrecheckCode : ResponseCode
  cost : UInt64
  deriving DecidableEq

def buildResponseHeader (code : ResponseCode) (cost : UInt64) : ResponseHeader := ⟨code, cost⟩

structure Timestamp where
  seconds : Int64
  nanos : Int32
  deriving DecidableEq

structure Duration where
  seconds : Int64
  deriving DecidableEq

structure StakingInfo where
  stakedToMe : Int64
  stakePeriodStart : Option Timestamp
  declineReward : Bool
  pendingReward : Int64
  stakedId : Option StakedId
  deriving DecidableEq

structure AccountInfo where
  accountId : AccountId
  contractAccountId : String
  memo : String
  key : Option Bytes
  balance : UInt64
  receiverSigRequired : Bool
  deleted : Bool
  autoRenewPeriod : Option Duration
  expirationTime : Option Timestamp
  stakingInfo : StakingInfo
  ethereumNonce : Int64
  ownedNfts : Int64
  maxAutomaticTokenAssociations : Int32
  accountAlias : Bytes
  deriving DecidableEq

structure CryptoGetInfoResponse where
  header : ResponseHeader
  accountInfo : Option AccountInfo
  deriving DecidableEq

structure CryptoGetAccountBalanceResponse where
  header : ResponseHeader
  accountId : AccountId
  balance : UInt64
  deriving DecidableEq

structure TokenRelationship where
  tokenId : Option TokenId
  balance : UInt64
  kycStatus : ℕ
  freezeStatus : ℕ
  decimals : ℕ
  automaticAssociation : Bool
  deriving DecidableEq

structure AccountDetails where
  accountId : AccountId
  contractAccountId : String
  deleted : Bool
  proxyReceived : Int64
  key : Option Bytes
  balance : UInt64
  receiverSigRequired : Bool
  expirationTime : Timestamp
  autoRenewPeriod : Duration
  tokenRelationships : List TokenRelationship
  memo : String
  ownedNfts : Int64
  maxAutomaticTokenAssociations : Int32
  accountAlias : Bytes
  grantedCryptoAllowances : List CryptoAllowance
  grantedNftAllowances : List NftAllowance
  grantedTokenAllowances : List TokenAllowance
  deriving DecidableEq

structure GetAccountDetailsResponse where
  header : ResponseHeader
  accountDetails : Option AccountDetails
  deriving DecidableEq

/-- A `Status`, or a panic of the task. -/
inductive QueryError where
  | invalidArgument (message : String)
  | internal (message : String)
  | unimplemented (message : String)
  | panicked
  deriving DecidableEq

/-! ### Reading the state -/

/-- `get_state_value`, which may fail. -/
abbrev StateReader := Bytes → Except String (Option Bytes)

/-- The value under a key, decoded. -/
def readValue (messages : Messages) (reader : StateReader) (dbKey : Bytes) :
    Except QueryError (Option MapChangeValue) :=
  match reader dbKey with
  | .error e => .error (.internal s!"Failed to query state: {e}")
  | .ok none => .ok none
  | .ok (some bytes) =>
    match messages.value.decode bytes with
    | .error e => .error (.internal s!"Failed to decode MapChangeValue: {e}")
    | .ok value => .ok (some value)

/-- The key that the account queries build. -/
def accountDbKey (messages : Messages) (accountId : AccountId) : Bytes :=
  toBE 4 messages.stateIdAccounts.toNat ++ messages.key.encode ⟨some (.accountIdKey accountId)⟩

/-- The account in a value. -/
def accountOf : Option MapChangeValue → Except QueryError (Option Account)
  | none => .ok none
  | some ⟨some (.accountValue account)⟩ => .ok (some account)
  | some _ =>
    .error (.internal "State inconsistency: Expected Account value, found other type")

def readAccount (messages : Messages) (reader : StateReader) (accountId : AccountId) :
    Except QueryError (Option Account) := do
  let value ← readValue messages reader (accountDbKey messages accountId)
  accountOf value

/-! ### The handlers -/

/-- `hex::encode`. -/
def hexEncode (bytes : Bytes) : String :=
  String.ofList (bytes.flatMap fun b => [(b.toNat / 16).digitChar, (b.toNat % 16).digitChar])

/-- A time that is not set is 0 or below. -/
def timestampOf (seconds : Int64) : Option Timestamp :=
  if 0 < seconds then some ⟨seconds, 0⟩ else none

def contractAccountId (account : Account) (accountId : AccountId) : String :=
  if account.smartContract then
    if account.accountAlias ≠ [] then hexEncode account.accountAlias
    else
      match accountId.account with
      | some (.accountNum num) => s!"0.0.{num}"
      | _ => ""
  else ""

/-- The answer of `get_account_info`; an account without an id makes it panic. -/
def infoResponse : Option Account → Except QueryError CryptoGetInfoResponse
  | none => .ok ⟨buildResponseHeader .invalidAccountId 0, none⟩
  | some account =>
    match account.accountId with
    | none => .error .panicked
    | some accountId => .ok ⟨buildResponseHeader .ok 0, some
      { accountId := accountId
        contractAccountId := contractAccountId account accountId
        memo := account.memo
        key := account.key
        balance := account.tinybarBalance.toUInt64
        receiverSigRequired := account.receiverSigRequired
        deleted := account.deleted
        autoRenewPeriod :=
          if 0 < account.autoRenewSeconds then some ⟨account.autoRenewSeconds⟩ else none
        expirationTime := timestampOf account.expirationSecond
        stakingInfo :=
          { stakedToMe := account.stakedToMe
            stakePeriodStart := timestampOf account.stakePeriodStart
            declineReward := account.declineReward
            pendingReward := 0
            stakedId := account.stakedId }
        ethereumNonce := account.ethereumNonce
        ownedNfts := account.numberOwnedNfts
        maxAutomaticTokenAssociations := account.maxAutoAssociations
        accountAlias := account.accountAlias }⟩

structure CryptoGetInfoQuery where
  accountId : Option AccountId

/-- `get_account_info`. -/
def getAccountInfo (messages : Messages) (reader : StateReader) (query : CryptoGetInfoQuery) :
    Except QueryError CryptoGetInfoResponse :=
  match query.accountId with
  | none => .error (.invalidArgument "Missing account_id in CryptoGetInfoQuery")
  | some accountId => do
    let account ← readAccount messages reader accountId
    infoResponse account

inductive BalanceSource where
  | accountId (id : AccountId)
  | contractId (rest : Bytes)

structure CryptoGetAccountBalanceQuery where
  balanceSource : Option BalanceSource

/-- The answer of `get_account_balance`. -/
def balanceResponse (accountId : AccountId) :
    Option Account → Except QueryError CryptoGetAccountBalanceResponse
  | none => .ok ⟨buildResponseHeader .invalidAccountId 0, accountId, 0⟩
  | some account =>
    .ok ⟨buildResponseHeader .ok 0, accountId, account.tinybarBalance.toUInt64⟩

/-- `get_account_balance`. -/
def getAccountBalance (messages : Messages) (reader : StateReader)
    (query : CryptoGetAccountBalanceQuery) : Except QueryError CryptoGetAccountBalanceResponse :=
  match query.balanceSource with
  | none =>
    .error (.invalidArgument "Missing balance_source in CryptoGetAccountBalanceQuery")
  | some (.contractId _) => .error (.unimplemented "Contract balance query not supported")
  | some (.accountId accountId) => do
    let account ← readAccount messages reader accountId
    balanceResponse accountId account

/-- The key of a token relation. -/
def relationDbKey (messages : Messages) (tokenId : TokenId) (accountId : Option AccountId) :
    Bytes :=
  toBE 4 messages.stateIdTokenRelations.toNat ++
    messages.key.encode ⟨some (.tokenRelationshipKey (some tokenId) accountId)⟩

/-- The loop of `get_token_relationships`: the relations of an account are a linked list. -/
def tokenRelationships (messages : Messages) (reader : StateReader)
    (accountId : Option AccountId) : ℕ → Option TokenId → Except QueryError (List TokenRelationship)
  | 0, _ | _, none => .ok []
  | k + 1, some tokenId => do
    let value ← readValue messages reader (relationDbKey messages tokenId accountId)
    match value with
    | none => .error (.internal "Token relationship not found in state")
    | some ⟨some (.tokenRelationValue relation)⟩ => do
      let rest ← tokenRelationships messages reader accountId k relation.nextToken
      .ok (⟨relation.tokenId, relation.balance.toUInt64, if relation.kycGranted then 1 else 2,
        if relation.frozen then 1 else 2, 0, relation.automaticAssociation⟩ :: rest)
    | some _ =>
      .error (.internal "State inconsistency: Expected TokenRelation value, found other type")

/-- `get_token_relationships`. -/
def getTokenRelationships (messages : Messages) (reader : StateReader) (account : Account) :
    Except QueryError (List TokenRelationship) :=
  tokenRelationships messages reader account.accountId account.numberAssociations.toInt.toNat
    account.headTokenId

/-- The answer of `get_account_details`. -/
def detailsResponse (messages : Messages) (reader : StateReader) :
    Option Account → Except QueryError GetAccountDetailsResponse
  | none => .ok ⟨buildResponseHeader .invalidAccountId 0, none⟩
  | some account => do
    let relationships ← getTokenRelationships messages reader account
    match account.accountId with
    | none => .error .panicked
    | some accountId => .ok ⟨buildResponseHeader .ok 0, some
      { accountId := accountId
        contractAccountId := if account.smartContract then hexEncode account.accountAlias else ""
        deleted := account.deleted
        proxyReceived := account.stakedToMe
        key := account.key
        balance := account.tinybarBalance.toUInt64
        receiverSigRequired := account.receiverSigRequired
        expirationTime := ⟨account.expirationSecond, 0⟩
        autoRenewPeriod := ⟨account.autoRenewSeconds⟩
        tokenRelationships := relationships
        memo := account.memo
        ownedNfts := account.numberOwnedNfts
        maxAutomaticTokenAssociations := account.maxAutoAssociations
        accountAlias := account.accountAlias
        grantedCryptoAllowances := account.cryptoAllowances
        grantedNftAllowances := account.approveForAllNftAllowances
        grantedTokenAllowances := account.tokenAllowances }⟩

structure GetAccountDetailsQuery where
  accountId : Option AccountId

/-- `get_account_details`. -/
def getAccountDetails (messages : Messages) (reader : StateReader)
    (query : GetAccountDetailsQuery) : Except QueryError GetAccountDetailsResponse :=
  match query.accountId with
  | none => .error (.invalidArgument "Missing account_id in GetAccountDetailsQuery")
  | some accountId => do
    let account ← readAccount messages reader accountId
    detailsResponse messages reader account

/-! ### What the queries see -/

section

variable {codec : Codec} {messages : Messages} {blocks : List (ℕ × Block)} {db : StateDb}

/-- The queries look where the state manager has put the account. -/
lemma accountDbKey_eq (accountId : AccountId) :
    accountDbKey messages accountId =
      dbKey messages.key (messages.stateIdAccounts, ⟨some (.accountIdKey accountId)⟩) := rfl

/-- A value that was stored is read back. -/
lemma readValue_of_get {key : Bytes} {value : Option MapChangeValue}
    (h : db.stateData.get key = value.map messages.value.encode) :
    readValue messages db.getStateValue key = .ok value := by
  rw [readValue, StateDb.getStateValue, h]
  rcases value with _ | value
  · rfl
  · simp

/-- The three queries answer with the account in the value, if there is one. -/
structure QueriesSee (messages : Messages) (db : StateDb) (accountId : AccountId)
    (value : Option MapChangeValue) : Prop where
  info : getAccountInfo messages db.getStateValue ⟨some accountId⟩ = do
    infoResponse (← accountOf value)
  balance : getAccountBalance messages db.getStateValue ⟨some (.accountId accountId)⟩ = do
    balanceResponse accountId (← accountOf value)
  details : getAccountDetails messages db.getStateValue ⟨some accountId⟩ = do
    detailsResponse messages db.getStateValue (← accountOf value)

lemma queriesSee_of_get {accountId : AccountId} {value : Option MapChangeValue}
    (h : db.stateData.get (accountDbKey messages accountId) =
      value.map messages.value.encode) : QueriesSee messages db accountId value := by
  have hread : readAccount messages db.getStateValue accountId = accountOf value := by
    rw [readAccount, readValue_of_get h]
    rfl
  constructor
  · simp only [getAccountInfo, hread]
  · simp only [getAccountBalance, hread]
  · simp only [getAccountDetails, hread]

end

/-- **Maps are last-writer-wins, and the queries see them.** After any blocks whose changes are
operations on maps, `get_state_value` gives for every state id and key the encoding of the value
of the last operation on them, and nothing if that is a deletion or there is none; operations on
other pairs change nothing, in any state; and the account queries look under the key of the
account's update, so they answer with the last value of the account. -/
theorem map_state_queries {codec : Codec} {messages : Messages} {blocks : List (ℕ × Block)}
    (h : ∀ block ∈ blocks, block.2.MapOnly messages.key messages.value) :
    (∃ db, replay codec (blocks.map fun block => (block.1, codec.encode block.2)) = .ok db ∧
      (∀ s k, db.getStateValue (stateKey s ++ messages.key.encode k) =
        .ok ((lastWrite (blocks.flatMap fun block => block.2.mapWrites messages.key messages.value)
          (s, k)).join.map messages.value.encode)) ∧
      ∀ accountId, QueriesSee messages db accountId
        (lastWrite (blocks.flatMap fun block => block.2.mapWrites messages.key messages.value)
          (messages.stateIdAccounts, ⟨some (.accountIdKey accountId)⟩)).join) ∧
    (∀ block ∈ blocks, ∀ s k, (∀ w ∈ block.2.mapWrites messages.key messages.value, w.1 ≠ (s, k)) →
      ∀ db db', applyStateChanges codec db block.1 (codec.encode block.2) = .ok db' →
        db'.getStateValue (stateKey s ++ messages.key.encode k) =
          db.getStateValue (stateKey s ++ messages.key.encode k)) ∧
    ∀ accountId, constructDbKey messages.stateIdAccounts
        (some (messages.key.encode ⟨some (.accountIdKey accountId)⟩)) =
      .ok (accountDbKey messages accountId) := by
  refine ⟨?_, ?_, fun accountId => rfl⟩
  · obtain ⟨db, hreplay, hget⟩ := replay_map codec h
    refine ⟨db, hreplay, fun s k => ?_, fun accountId => ?_⟩
    · exact congrArg Except.ok (hget (s, k))
    · have hvalue := hget (messages.stateIdAccounts, ⟨some (.accountIdKey accountId)⟩)
      rw [← accountDbKey_eq] at hvalue
      exact queriesSee_of_get hvalue
  · intro block hblock s k hother db db' hok
    exact congrArg Except.ok (applyStateChanges_frame (h block hblock) hother hok)

/-- Account 0.0.7 with a balance. -/
def idSeven : AccountId := ⟨0, 0, some (.accountNum 7)⟩
def accountSeven (balance : Int64) : MapChangeValue := ⟨some (.accountValue
  { accountId := some idSeven, accountAlias := [], key := none, expirationSecond := 0
    tinybarBalance := balance, memo := "", deleted := false, stakedToMe := 0
    stakePeriodStart := 0, stakedId := none, declineReward := false
    receiverSigRequired := false, headTokenId := none, numberOwnedNfts := 0
    maxAutoAssociations := 0, numberAssociations := 0, smartContract := false
    ethereumNonce := 0, autoRenewSeconds := 0, cryptoAllowances := []
    approveForAllNftAllowances := [], tokenAllowances := [] })⟩

/-- A block with one set of operations on maps. -/
def writesBlock (writes : List (MapWrite MapChangeKey MapChangeValue)) : Block :=
  ⟨[⟨some (.stateChanges ⟨some [], writes.map (mapChange plainMessages.key
    plainMessages.value)⟩)⟩]⟩

lemma writesBlock_mapOnly (writes : List (MapWrite MapChangeKey MapChangeValue)) :
    (writesBlock writes).MapOnly plainMessages.key plainMessages.value where
  stamped item hitem set hset := by
    cases List.mem_singleton.mp hitem
    cases hset
    exact Option.some_ne_none _
  changes item hitem change hchange := by
    cases List.mem_singleton.mp hitem
    obtain ⟨w, -, rfl⟩ := List.mem_map.mp hchange
    exact ⟨w, rfl⟩

lemma writesBlock_mapWrites (writes : List (MapWrite MapChangeKey MapChangeValue)) :
    (writesBlock writes).mapWrites plainMessages.key plainMessages.value = writes := by
  simp [writesBlock, Block.mapWrites, BlockItem.mapWrites, BlockItem.changes,
    List.filterMap_map]

/-- Two updates of the account in one block; another state id in the next. -/
theorem map_state_queries_seven : ∃ db,
    replay plainCodec [(0, plainCodec.encode (writesBlock
        [((1, ⟨some (.accountIdKey idSeven)⟩), some (accountSeven 20)),
          ((1, ⟨some (.accountIdKey idSeven)⟩), some (accountSeven 50))])),
      (1, plainCodec.encode (writesBlock [((2, ⟨some (.accountIdKey idSeven)⟩), none)]))] =
        .ok db ∧
      getAccountBalance plainMessages db.getStateValue ⟨some (.accountId idSeven)⟩ =
        .ok ⟨buildResponseHeader .ok 0, idSeven, 50⟩ := by
  have hblocks : ∀ block ∈ [(0, writesBlock
      [((1, ⟨some (.accountIdKey idSeven)⟩), some (accountSeven 20)),
        ((1, ⟨some (.accountIdKey idSeven)⟩), some (accountSeven 50))]),
      ((1 : ℕ), writesBlock [((2, ⟨some (.accountIdKey idSeven)⟩), none)])],
      block.2.MapOnly plainMessages.key plainMessages.value := by
    intro block hblock
    rcases List.mem_pair.mp hblock with rfl | rfl <;> exact writesBlock_mapOnly _
  obtain ⟨⟨db, hreplay, -, hqueries⟩, -⟩ := map_state_queries hblocks
  refine ⟨db, hreplay, ?_⟩
  rw [(hqueries idSeven).balance]
  simp only [List.flatMap_cons, List.flatMap_nil, writesBlock_mapWrites]
  rfl

end RockNode
