import RockNode.EntityMessages
import RockNode.MixedState

/-!
The queries of the consensus, schedule, file, smart contract and token services, and the version
query of the network service.

The handlers are alike. Each takes the id from the query, builds the key of the entity from the
state id and the encoded key, reads the value and decodes it, and answers with the fields of the
entity if it is of the right type. The contract handler looks among the accounts and takes only
contract numbers; the version query reads a singleton.
-/

namespace RockNode

/-! ### Answers -/

inductive EntityResponseCode where
  | ok
  | invalidTopicId
  | invalidScheduleId
  | invalidFileId
  | invalidContractId
  | invalidTokenId
  | invalidNftId
  deriving DecidableEq

structure EntityResponseHeader where
  nodeTransactionPrecheckCode : EntityResponseCode
  cost : UInt64
  deriving DecidableEq

/-- `build_response_header`, of which each handler has its own. -/
def entityResponseHeader (code : EntityResponseCode) (cost : UInt64) : EntityResponseHeader :=
  ⟨code, cost⟩

structure ConsensusTopicInfo where
  memo : String
  runningHash : Bytes
  sequenceNumber : UInt64
  expirationTime : Option Timestamp
  adminKey : Option Bytes
  submitKey : Option Bytes
  autoRenewPeriod : Option Duration
  autoRenewAccount : Option AccountId
  ledgerId : Bytes
  feeScheduleKey : Option Bytes
  feeExemptKeyList : List Bytes
  customFees : List Bytes
  deriving DecidableEq

structure ConsensusGetTopicInfoResponse where
  header : EntityResponseHeader
  topicId : TopicId
  topicInfo : Option ConsensusTopicInfo
  deriving DecidableEq

structure ScheduleInfo where
  scheduleId : ScheduleId
  memo : String
  adminKey : Option Bytes
  payerAccountId : Option AccountId
  scheduledTransactionBody : Option Bytes
  signers : List Bytes
  creatorAccountId : Option AccountId
  waitForExpiry : Bool
  deriving DecidableEq

structure ScheduleGetInfoResponse where
  header : EntityResponseHeader
  scheduleInfo : Option ScheduleInfo
  deriving DecidableEq

structure FileInfo where
  fileId : FileId
  size : Int64
  expirationTime : Option Timestamp
  deleted : Bool
  keys : Option Bytes
  memo : String
  ledgerId : Bytes
  deriving DecidableEq

structure FileGetInfoResponse where
  header : EntityResponseHeader
  fileInfo : Option FileInfo
  deriving DecidableEq

structure FileContents where
  fileId : FileId
  contents : Bytes
  deriving DecidableEq

structure FileGetContentsResponse where
  header : EntityResponseHeader
  fileContents : Option FileContents
  deriving DecidableEq

structure ContractInfo where
  contractId : ContractId
  accountId : Option AccountId
  contractAccountId : String
  adminKey : Option Bytes
  expirationTime : Option Timestamp
  autoRenewPeriod : Option Duration
  storage : Int64
  memo : String
  balance : UInt64
  deleted : Bool
  deriving DecidableEq

structure ContractGetInfoResponse where
  header : EntityResponseHeader
  contractInfo : Option ContractInfo
  deriving DecidableEq

structure ContractGetBytecodeResponse where
  header : EntityResponseHeader
  bytecode : Bytes
  deriving DecidableEq

structure TokenInfo where
  tokenId : TokenId
  name : String
  symbol : String
  decimals : UInt32
  totalSupply : UInt64
  treasury : Option AccountId
  adminKey : Option Bytes
  kycKey : Option Bytes
  freezeKey : Option Bytes
  wipeKey : Option Bytes
  supplyKey : Option Bytes
  defaultFreezeStatus : ℕ
  defaultKycStatus : ℕ
  deleted : Bool
  autoRenewAccount : Option AccountId
  autoRenewPeriod : Option Duration
  expiry : Option Timestamp
  memo : String
  tokenType : Int32
  supplyType : Int32
  maxSupply : Int64
  feeScheduleKey : Option Bytes
  customFees : List Bytes
  pauseKey : Option Bytes
  pauseStatus : ℕ
  ledgerId : Bytes
  metadata : Bytes
  metadataKey : Option Bytes
  deriving DecidableEq

structure TokenGetInfoResponse where
  header : EntityResponseHeader
  tokenInfo : Option TokenInfo
  deriving DecidableEq

structure TokenNftInfo where
  nftId : Option NftId
  accountId : Option AccountId
  creationTime : Option Timestamp
  metadata : Bytes
  ledgerId : Bytes
  spenderId : Option AccountId
  deriving DecidableEq

structure TokenGetNftInfoResponse where
  header : EntityResponseHeader
  nft : Option TokenNftInfo
  deriving DecidableEq

structure NetworkGetVersionInfoResponse where
  header : EntityResponseHeader
  hapiProtoVersion : Option SemanticVersion
  hederaServicesVersion : Option SemanticVersion
  deriving DecidableEq

/-! ### The common part -/

/-- The value under a key, decoded as a message with this name. -/
def readMessage {V : Type} (values : Message V) (name : String) (reader : StateReader)
    (dbKey : Bytes) : Except QueryError (Option V) :=
  match reader dbKey with
  | .error e => .error (.internal s!"Failed to query state: {e}")
  | .ok none => .ok none
  | .ok (some bytes) =>
    match values.decode bytes with
    | .error e => .error (.internal s!"Failed to decode {name}: {e}")
    | .ok value => .ok (some value)

/-- What one handler has that another has not. -/
structure EntityQuery (Id Entity Response : Type) where
  missing : String
  stateId : UInt32
  key : Id → EntityKeyChoice
  pick : EntityValueChoice → Option Entity
  mismatch : String
  found : Id → Entity → Except QueryError Response
  absent : Id → Response

namespace EntityQuery

variable {Id Entity Response : Type} (query : EntityQuery Id Entity Response)

/-- The answer for what is under the key. -/
def respond (id : Id) : Option EntityValue → Except QueryError Response
  | none => .ok (query.absent id)
  | some value =>
    match value.valueChoice.bind query.pick with
    | some entity => query.found id entity
    | none => .error (.internal query.mismatch)

def answer (messages : EntityMessages) (reader : StateReader) :
    Option Id → Except QueryError Response
  | none => .error (.invalidArgument query.missing)
  | some id => do
    let value ← readMessage messages.value "MapChangeValue" reader
      (dbKey messages.key (query.stateId, ⟨some (query.key id)⟩))
    query.respond id value

end EntityQuery

/-! ### The handlers -/

def topicInfo (messages : EntityMessages) :
    EntityQuery TopicId Topic ConsensusGetTopicInfoResponse where
  missing := "Missing topic_id in ConsensusGetTopicInfoQuery"
  stateId := messages.stateIdTopics
  key := .topicIdKey
  pick := fun
    | .topicValue topic => some topic
    | _ => none
  mismatch := "State inconsistency: Expected Topic value, found other type"
  found id topic := .ok ⟨entityResponseHeader .ok 0, id, some
    { memo := topic.memo
      runningHash := topic.runningHash
      sequenceNumber := topic.sequenceNumber.toUInt64
      expirationTime := some ⟨topic.expirationSecond, 0⟩
      adminKey := topic.adminKey
      submitKey := topic.submitKey
      autoRenewPeriod := some ⟨topic.autoRenewPeriod⟩
      autoRenewAccount := topic.autoRenewAccountId
      ledgerId := []
      feeScheduleKey := topic.feeScheduleKey
      feeExemptKeyList := topic.feeExemptKeyList
      customFees := topic.customFees }⟩
  absent id := ⟨entityResponseHeader .invalidTopicId 0, id, none⟩

structure ConsensusGetTopicInfoQuery where
  topicId : Option TopicId

/-- `get_topic_info`. -/
def getTopicInfo (messages : EntityMessages) (reader : StateReader)
    (query : ConsensusGetTopicInfoQuery) : Except QueryError ConsensusGetTopicInfoResponse :=
  (topicInfo messages).answer messages reader query.topicId

def scheduleInfo (messages : EntityMessages) :
    EntityQuery ScheduleId Schedule ScheduleGetInfoResponse where
  missing := "Missing schedule_id in ScheduleGetInfoQuery"
  stateId := messages.stateIdSchedulesById
  key := .scheduleIdKey
  pick := fun
    | .scheduleValue schedule => some schedule
    | _ => none
  mismatch := "State inconsistency: Expected Schedule value, found other type"
  found id schedule := .ok ⟨entityResponseHeader .ok 0, some
    { scheduleId := id
      memo := schedule.memo
      adminKey := schedule.adminKey
      payerAccountId := schedule.payerAccountId
      scheduledTransactionBody := schedule.scheduledTransaction
      signers := schedule.signatories
      creatorAccountId := schedule.schedulerAccountId
      waitForExpiry := schedule.waitForExpiry }⟩
  absent _ := ⟨entityResponseHeader .invalidScheduleId 0, none⟩

structure ScheduleGetInfoQuery where
  scheduleId : Option ScheduleId

/-- `get_schedule_info`. -/
def getScheduleInfo (messages : EntityMessages) (reader : StateReader)
    (query : ScheduleGetInfoQuery) : Except QueryError ScheduleGetInfoResponse :=
  (scheduleInfo messages).answer messages reader query.scheduleId

/-- What the two file handlers share. -/
def fileQuery {Response : Type} (messages : EntityMessages) (missing : String)
    (found : FileId → File → Response) (absent : Response) : EntityQuery FileId File Response where
  missing := missing
  stateId := messages.stateIdFiles
  key := .fileIdKey
  pick := fun
    | .fileValue file => some file
    | _ => none
  mismatch := "State inconsistency: Expected File value, found other type"
  found id file := .ok (found id file)
  absent _ := absent

def fileInfo (messages : EntityMessages) : EntityQuery FileId File FileGetInfoResponse :=
  fileQuery messages "Missing file_id in FileGetInfoQuery"
    (fun id file => ⟨entityResponseHeader .ok 0, some
      { fileId := id
        size := Int64.ofNat file.contents.length
        expirationTime := timestampOf file.expirationSecond
        deleted := file.deleted
        keys := file.keys
        memo := file.memo
        ledgerId := [] }⟩)
    ⟨entityResponseHeader .invalidFileId 0, none⟩

def fileContents (messages : EntityMessages) : EntityQuery FileId File FileGetContentsResponse :=
  fileQuery messages "Missing file_id in FileGetContentsQuery"
    (fun id file => ⟨entityResponseHeader .ok 0, some ⟨id, file.contents⟩⟩)
    ⟨entityResponseHeader .invalidFileId 0, none⟩

structure FileGetInfoQuery where
  fileId : Option FileId

/-- `get_file_info`. -/
def getFileInfo (messages : EntityMessages) (reader : StateReader) (query : FileGetInfoQuery) :
    Except QueryError FileGetInfoResponse :=
  (fileInfo messages).answer messages reader query.fileId

structure FileGetContentsQuery where
  fileId : Option FileId

/-- `get_file_content`. -/
def getFileContent (messages : EntityMessages) (reader : StateReader)
    (query : FileGetContentsQuery) : Except QueryError FileGetContentsResponse :=
  (fileContents messages).answer messages reader query.fileId

/-- The account of a contract number. -/
def ContractId.accountId (id : ContractId) (num : Int64) : AccountId :=
  ⟨id.shardNum, id.realmNum, some (.accountNum num)⟩

/-- An account that is not a contract is no better than none. -/
def contractInfo (messages : EntityMessages) (id : ContractId) :
    EntityQuery AccountId ContractAccount ContractGetInfoResponse where
  missing := "Missing contract_id in ContractGetInfoQuery"
  stateId := messages.stateIdAccounts
  key := .accountIdKey
  pick := fun
    | .accountValue account => some account
    | _ => none
  mismatch := "State inconsistency: Expected Account value for contract, found other type"
  found _ contract :=
    if contract.account.smartContract then .ok ⟨entityResponseHeader .ok 0, some
      { contractId := id
        accountId := contract.account.accountId
        contractAccountId := hexEncode contract.account.accountAlias
        adminKey := contract.account.key
        expirationTime := some ⟨contract.account.expirationSecond, 0⟩
        autoRenewPeriod := some ⟨contract.account.autoRenewSeconds⟩
        storage := contract.contractKvPairsNumber.toInt64
        memo := contract.account.memo
        balance := contract.account.tinybarBalance.toUInt64
        deleted := contract.account.deleted }⟩
    else .ok ⟨entityResponseHeader .invalidContractId 0, none⟩
  absent _ := ⟨entityResponseHeader .invalidContractId 0, none⟩

structure ContractGetInfoQuery where
  contractId : Option ContractId

/-- `get_contract_info`. -/
def getContractInfo (messages : EntityMessages) (reader : StateReader)
    (query : ContractGetInfoQuery) : Except QueryError ContractGetInfoResponse :=
  match query.contractId with
  | none => .error (.invalidArgument "Missing contract_id in ContractGetInfoQuery")
  | some id =>
    match id.contract with
    | some (.contractNum num) =>
      (contractInfo messages id).answer messages reader (some (id.accountId num))
    | _ => .error (.invalidArgument "EVM address not supported yet")

def contractBytecode (messages : EntityMessages) :
    EntityQuery ContractId Bytecode ContractGetBytecodeResponse where
  missing := "Missing contract_id in ContractGetBytecodeQuery"
  stateId := messages.stateIdContractBytecode
  key := .contractIdKey
  pick := fun
    | .bytecodeValue bytecode => some bytecode
    | _ => none
  mismatch := "State inconsistency: Expected Bytecode value, found other type"
  found _ bytecode := .ok ⟨entityResponseHeader .ok 0, bytecode.code⟩
  absent _ := ⟨entityResponseHeader .invalidContractId 0, []⟩

structure ContractGetBytecodeQuery where
  contractId : Option ContractId

/-- `get_contract_bytecode`. -/
def getContractBytecode (messages : EntityMessages) (reader : StateReader)
    (query : ContractGetBytecodeQuery) : Except QueryError ContractGetBytecodeResponse :=
  (contractBytecode messages).answer messages reader query.contractId

/-- A token without an id makes the handler panic. -/
def tokenInfo (messages : EntityMessages) : EntityQuery TokenId Token TokenGetInfoResponse where
  missing := "Missing token_id in TokenGetInfoQuery"
  stateId := messages.stateIdTokens
  key := .tokenIdKey
  pick := fun
    | .tokenValue token => some token
    | _ => none
  mismatch := "State inconsistency: Expected Token value, found other type"
  found _ token :=
    match token.tokenId with
    | none => .error .panicked
    | some tokenId => .ok ⟨entityResponseHeader .ok 0, some
      { tokenId := tokenId
        name := token.name
        symbol := token.symbol
        decimals := token.decimals.toUInt32
        totalSupply := token.totalSupply.toUInt64
        treasury := token.treasuryAccountId
        adminKey := token.adminKey
        kycKey := token.kycKey
        freezeKey := token.freezeKey
        wipeKey := token.wipeKey
        supplyKey := token.supplyKey
        defaultFreezeStatus := if token.accountsFrozenByDefault then 1 else 2
        defaultKycStatus := if token.accountsKycGrantedByDefault then 1 else 2
        deleted := token.deleted
        autoRenewAccount := token.autoRenewAccountId
        autoRenewPeriod := some ⟨token.autoRenewSeconds⟩
        expiry := some ⟨token.expirationSecond, 0⟩
        memo := token.memo
        tokenType := token.tokenType
        supplyType := token.supplyType
        maxSupply := token.maxSupply
        feeScheduleKey := token.feeScheduleKey
        customFees := token.customFees
        pauseKey := token.pauseKey
        pauseStatus := if token.paused then 1 else 2
        ledgerId := []
        metadata := token.metadata
        metadataKey := token.metadataKey }⟩
  absent _ := ⟨entityResponseHeader .invalidTokenId 0, none⟩

structure TokenGetInfoQuery where
  token : Option TokenId

/-- `get_token_info`. -/
def getTokenInfo (messages : EntityMessages) (reader : StateReader) (query : TokenGetInfoQuery) :
    Except QueryError TokenGetInfoResponse :=
  (tokenInfo messages).answer messages reader query.token

def nftInfo (messages : EntityMessages) : EntityQuery NftId Nft TokenGetNftInfoResponse where
  missing := "Missing nft_id in TokenGetNftInfoQuery"
  stateId := messages.stateIdNfts
  key := .nftIdKey
  pick := fun
    | .nftValue nft => some nft
    | _ => none
  mismatch := "State inconsistency: Expected Nft value, found other type"
  found _ nft := .ok ⟨entityResponseHeader .ok 0, some
    { nftId := nft.nftId
      accountId := nft.ownerId
      creationTime := nft.mintTime
      metadata := nft.metadata
      ledgerId := []
      spenderId := nft.spenderId }⟩
  absent _ := ⟨entityResponseHeader .invalidNftId 0, none⟩

structure TokenGetNftInfoQuery where
  nftId : Option NftId

/-- `get_token_nft_info`. -/
def getTokenNftInfo (messages : EntityMessages) (reader : StateReader)
    (query : TokenGetNftInfoQuery) : Except QueryError TokenGetNftInfoResponse :=
  (nftInfo messages).answer messages reader query.nftId

/-- The answer of the version query: the two versions are one. -/
def versionResponse (info : Option BlockStreamInfo) : NetworkGetVersionInfoResponse :=
  let version := info.map fun info => info.creationSoftwareVersion.getD .default
  ⟨entityResponseHeader .ok 0, version, version⟩

/-- `get_version_info`. -/
def getVersionInfo (messages : EntityMessages) (reader : StateReader) :
    Except QueryError NetworkGetVersionInfoResponse := do
  let info ← readMessage messages.blockStreamInfo "BlockStreamInfo" reader
    (toBE 4 messages.stateIdBlockStreamInfo.toNat)
  .ok (versionResponse info)

/-! ### What the queries see -/

section

variable {messages : EntityMessages} {db : StateDb}

/-- A message that was stored is read back. -/
lemma readMessage_of_get {V : Type} {values : Message V} {key : Bytes} {value : Option V}
    (h : db.stateData.get key = value.map values.encode) (name : String) :
    readMessage values name db.getStateValue key = .ok value := by
  rw [readMessage, StateDb.getStateValue, h]
  rcases value with _ | value
  · rfl
  · simp

lemma EntityQuery.answer_of_get {Id Entity Response : Type}
    (query : EntityQuery Id Entity Response) {id : Id} {value : Option EntityValue}
    (h : db.stateData.get (dbKey messages.key (query.stateId, ⟨some (query.key id)⟩)) =
      value.map messages.value.encode) :
    query.answer messages db.getStateValue (some id) = query.respond id value := by
  rw [EntityQuery.answer, readMessage_of_get h]
  rfl

end

/-- Every handler answers with what `last` has under the state id and the key it is for. -/
structure EntityAnswers (messages : EntityMessages) (reader : StateReader)
    (last : UInt32 → EntityKeyChoice → Option EntityValue) (info : Option BlockStreamInfo) :
    Prop where
  topic : ∀ id, getTopicInfo messages reader ⟨some id⟩ =
    (topicInfo messages).respond id (last messages.stateIdTopics (.topicIdKey id))
  schedule : ∀ id, getScheduleInfo messages reader ⟨some id⟩ =
    (scheduleInfo messages).respond id (last messages.stateIdSchedulesById (.scheduleIdKey id))
  file : ∀ id, getFileInfo messages reader ⟨some id⟩ =
    (fileInfo messages).respond id (last messages.stateIdFiles (.fileIdKey id))
  contents : ∀ id, getFileContent messages reader ⟨some id⟩ =
    (fileContents messages).respond id (last messages.stateIdFiles (.fileIdKey id))
  contract : ∀ id num, id.contract = some (.contractNum num) →
    getContractInfo messages reader ⟨some id⟩ =
      (contractInfo messages id).respond (id.accountId num)
        (last messages.stateIdAccounts (.accountIdKey (id.accountId num)))
  bytecode : ∀ id, getContractBytecode messages reader ⟨some id⟩ =
    (contractBytecode messages).respond id
      (last messages.stateIdContractBytecode (.contractIdKey id))
  token : ∀ id, getTokenInfo messages reader ⟨some id⟩ =
    (tokenInfo messages).respond id (last messages.stateIdTokens (.tokenIdKey id))
  nft : ∀ id, getTokenNftInfo messages reader ⟨some id⟩ =
    (nftInfo messages).respond id (last messages.stateIdNfts (.nftIdKey id))
  version : getVersionInfo messages reader = .ok (versionResponse info)

/-- A block with one set of changes. -/
def changesBlock (changes : List StateChange) : Block :=
  ⟨[⟨some (.stateChanges ⟨some [7], changes⟩)⟩]⟩

def fileChange (contents : Bytes) : StateChange :=
  mapChange plainEntities.key plainEntities.value
    ((4, ⟨some (.fileIdKey ⟨0, 0, 42⟩)⟩), some ⟨some (.fileValue ⟨0, none, contents, "", false⟩)⟩)

def versionChange (minor : Int32) : StateChange :=
  singletonChange plainEntities.blockStreamInfo 8 ⟨some ⟨0, minor, 0, "", ""⟩⟩

/-- File 0.0.42 is changed twice, beside a singleton and a queue with the state id 9. -/
def mixedBlocks : List (ℕ × Block) :=
  [(0, changesBlock [fileChange [1], ⟨9, some (.queuePush (some (.handled [5])))⟩,
      versionChange 1]),
    (1, changesBlock [⟨9, some .queuePop⟩, fileChange [1, 2], versionChange 2])]

lemma mixedBlocks_usesAsMap : ∀ s ∈ plainEntities.mapIds, ∀ block ∈ mixedBlocks,
    block.2.UsesAsMap plainEntities.key plainEntities.value s := by
  intro s hs block hblock change hchange hid
  subst hid
  rcases List.mem_pair.mp hblock with rfl | rfl <;>
    simp only [Block.changes, changesBlock, List.flatMap_cons, List.flatMap_nil, List.append_nil,
      BlockItem.changes, List.mem_cons, List.not_mem_nil, or_false] at hchange
  · rcases hchange with rfl | rfl | rfl
    · exact ⟨_, rfl⟩
    · exact absurd hs (by decide)
    · exact absurd hs (by decide)
  · rcases hchange with rfl | rfl | rfl
    · exact absurd hs (by decide)
    · exact ⟨_, rfl⟩
    · exact absurd hs (by decide)

lemma mixedBlocks_usesAsSingleton : ∀ block ∈ mixedBlocks,
    block.2.UsesAsSingleton plainEntities.blockStreamInfo plainEntities.stateIdBlockStreamInfo := by
  intro block hblock change hchange hid
  rcases List.mem_pair.mp hblock with rfl | rfl <;>
    simp only [Block.changes, changesBlock, List.flatMap_cons, List.flatMap_nil, List.append_nil,
      BlockItem.changes, List.mem_cons, List.not_mem_nil, or_false] at hchange
  · rcases hchange with rfl | rfl | rfl
    · exact absurd hid (by decide)
    · exact absurd hid (by decide)
    · exact ⟨_, rfl⟩
  · rcases hchange with rfl | rfl | rfl
    · exact absurd hid (by decide)
    · exact absurd hid (by decide)
    · exact ⟨_, rfl⟩

lemma mixedBlocks_popsClear :
    ∀ s ∈ plainEntities.stateIdBlockStreamInfo :: plainEntities.mapIds,
      PopsClearAlong plainCodec s mixedBlocks := by
  -- a search through the list: one through all words would not end
  have hall : (plainEntities.stateIdBlockStreamInfo :: plainEntities.mapIds).all
      (fun s => decide (PopsClearAlong plainCodec s mixedBlocks)) = true := by decide +kernel
  exact fun s hs => of_decide_eq_true (List.all_eq_true.mp hall s hs)

end RockNode
