import RockNode.AccountQueries

/-!
The generated messages behind the queries about topics, schedules, files, contracts, tokens and
NFTs, and behind the version query.

As for accounts, of each message the fields that a handler reads are here, and a nested message
that is only passed on is a byte string. The account of a contract comes with the number of its
storage slots, which the account queries do not read.
-/

namespace RockNode

/-! ### Ids -/

structure TopicId where
  shardNum : Int64
  realmNum : Int64
  topicNum : Int64
  deriving DecidableEq

structure ScheduleId where
  shardNum : Int64
  realmNum : Int64
  scheduleNum : Int64
  deriving DecidableEq

structure FileId where
  shardNum : Int64
  realmNum : Int64
  fileNum : Int64
  deriving DecidableEq

inductive ContractIdType where
  | contractNum (num : Int64)
  | evmAddress (bytes : Bytes)
  deriving DecidableEq

structure ContractId where
  shardNum : Int64
  realmNum : Int64
  contract : Option ContractIdType
  deriving DecidableEq

structure NftId where
  tokenId : Option TokenId
  serialNumber : Int64
  deriving DecidableEq

/-! ### Entities -/

structure Topic where
  memo : String
  runningHash : Bytes
  sequenceNumber : Int64
  expirationSecond : Int64
  adminKey : Option Bytes
  submitKey : Option Bytes
  autoRenewPeriod : Int64
  autoRenewAccountId : Option AccountId
  feeScheduleKey : Option Bytes
  feeExemptKeyList : List Bytes
  customFees : List Bytes
  deriving DecidableEq

structure Schedule where
  memo : String
  adminKey : Option Bytes
  payerAccountId : Option AccountId
  scheduledTransaction : Option Bytes
  signatories : List Bytes
  schedulerAccountId : Option AccountId
  waitForExpiry : Bool
  deriving DecidableEq

structure File where
  expirationSecond : Int64
  keys : Option Bytes
  contents : Bytes
  memo : String
  deleted : Bool
  deriving DecidableEq

structure Bytecode where
  code : Bytes
  deriving DecidableEq

/-- An account as the contract queries read it. -/
structure ContractAccount where
  account : Account
  contractKvPairsNumber : Int32
  deriving DecidableEq

structure Token where
  tokenId : Option TokenId
  name : String
  symbol : String
  decimals : Int32
  totalSupply : Int64
  treasuryAccountId : Option AccountId
  adminKey : Option Bytes
  kycKey : Option Bytes
  freezeKey : Option Bytes
  wipeKey : Option Bytes
  supplyKey : Option Bytes
  accountsFrozenByDefault : Bool
  accountsKycGrantedByDefault : Bool
  deleted : Bool
  autoRenewAccountId : Option AccountId
  autoRenewSeconds : Int64
  expirationSecond : Int64
  memo : String
  tokenType : Int32
  supplyType : Int32
  maxSupply : Int64
  feeScheduleKey : Option Bytes
  customFees : List Bytes
  pauseKey : Option Bytes
  paused : Bool
  metadata : Bytes
  metadataKey : Option Bytes
  deriving DecidableEq

structure Nft where
  nftId : Option NftId
  ownerId : Option AccountId
  mintTime : Option Timestamp
  metadata : Bytes
  spenderId : Option AccountId
  deriving DecidableEq

structure SemanticVersion where
  major : Int32
  minor : Int32
  patch : Int32
  pre : String
  build : String
  deriving DecidableEq

/-- `SemanticVersion::default`. -/
def SemanticVersion.default : SemanticVersion := ⟨0, 0, 0, "", ""⟩

structure BlockStreamInfo where
  creationSoftwareVersion : Option SemanticVersion
  deriving DecidableEq

/-! ### Keys and values -/

inductive EntityKeyChoice where
  | accountIdKey (id : AccountId)
  | topicIdKey (id : TopicId)
  | scheduleIdKey (id : ScheduleId)
  | fileIdKey (id : FileId)
  | contractIdKey (id : ContractId)
  | tokenIdKey (id : TokenId)
  | nftIdKey (id : NftId)
  | other (rest : Bytes)
  deriving DecidableEq

structure EntityKey where
  keyChoice : Option EntityKeyChoice
  deriving DecidableEq

inductive EntityValueChoice where
  | accountValue (account : ContractAccount)
  | topicValue (topic : Topic)
  | scheduleValue (schedule : Schedule)
  | fileValue (file : File)
  | bytecodeValue (bytecode : Bytecode)
  | tokenValue (token : Token)
  | nftValue (nft : Nft)
  | other (rest : Bytes)
  deriving DecidableEq

structure EntityValue where
  valueChoice : Option EntityValueChoice
  deriving DecidableEq

/-- The generated code that the state manager and the query handlers share. -/
structure EntityMessages where
  key : Message EntityKey
  value : Message EntityValue
  blockStreamInfo : Message BlockStreamInfo
  stateIdAccounts : UInt32
  stateIdTopics : UInt32
  stateIdSchedulesById : UInt32
  stateIdFiles : UInt32
  stateIdContractBytecode : UInt32
  stateIdTokens : UInt32
  stateIdNfts : UInt32
  stateIdBlockStreamInfo : UInt32

/-- The state ids of the maps that the handlers read. -/
def EntityMessages.mapIds (messages : EntityMessages) : List UInt32 :=
  [messages.stateIdAccounts, messages.stateIdTopics, messages.stateIdSchedulesById,
    messages.stateIdFiles, messages.stateIdContractBytecode, messages.stateIdTokens,
    messages.stateIdNfts]

/-! ### Generated code with these laws -/

namespace Format

def topicId : Format TopicId :=
  (i64.prod (i64.prod i64)).via (fun t => (t.shardNum, t.realmNum, t.topicNum))
    (fun x => ⟨x.1, x.2.1, x.2.2⟩) (fun _ => rfl)

def scheduleId : Format ScheduleId :=
  (i64.prod (i64.prod i64)).via (fun t => (t.shardNum, t.realmNum, t.scheduleNum))
    (fun x => ⟨x.1, x.2.1, x.2.2⟩) (fun _ => rfl)

def fileId : Format FileId :=
  (i64.prod (i64.prod i64)).via (fun t => (t.shardNum, t.realmNum, t.fileNum))
    (fun x => ⟨x.1, x.2.1, x.2.2⟩) (fun _ => rfl)

def contractId : Format ContractId :=
  (i64.prod (i64.prod (sum i64 bytes).option)).via
    (fun c => (c.shardNum, c.realmNum, c.contract.map fun
      | .contractNum num => .inl num
      | .evmAddress b => .inr b))
    (fun x => ⟨x.1, x.2.1, x.2.2.map (Sum.elim .contractNum .evmAddress)⟩)
    (by rintro ⟨s, r, _ | _ | _⟩ <;> rfl)

def nftId : Format NftId :=
  (tokenId.option.prod i64).via (fun n => (n.tokenId, n.serialNumber)) (fun x => ⟨x.1, x.2⟩)
    (fun _ => rfl)

def topic : Format Topic :=
  (string.prod (bytes.prod (i64.prod (i64.prod (bytes.option.prod (bytes.option.prod (i64.prod
    (accountId.option.prod (bytes.option.prod (bytes.list.prod bytes.list)))))))))).via
    (fun ⟨memo, hash, seq, exp, admin, submit, renew, account, fee, exempt, fees⟩ =>
      (memo, hash, seq, exp, admin, submit, renew, account, fee, exempt, fees))
    (fun (memo, hash, seq, exp, admin, submit, renew, account, fee, exempt, fees) =>
      ⟨memo, hash, seq, exp, admin, submit, renew, account, fee, exempt, fees⟩)
    (fun _ => rfl)

def schedule : Format Schedule :=
  (string.prod (bytes.option.prod (accountId.option.prod (bytes.option.prod (bytes.list.prod
    (accountId.option.prod bool)))))).via
    (fun ⟨memo, admin, payer, tx, signers, scheduler, wait⟩ =>
      (memo, admin, payer, tx, signers, scheduler, wait))
    (fun (memo, admin, payer, tx, signers, scheduler, wait) =>
      ⟨memo, admin, payer, tx, signers, scheduler, wait⟩)
    (fun _ => rfl)

def file : Format File :=
  (i64.prod (bytes.option.prod (bytes.prod (string.prod bool)))).via
    (fun f => (f.expirationSecond, f.keys, f.contents, f.memo, f.deleted))
    (fun (exp, keys, contents, memo, deleted) => ⟨exp, keys, contents, memo, deleted⟩)
    (fun _ => rfl)

def bytecode : Format Bytecode := bytes.via Bytecode.code (⟨·⟩) (fun _ => rfl)

def contractAccount : Format ContractAccount :=
  (account.prod i32).via (fun c => (c.account, c.contractKvPairsNumber)) (fun x => ⟨x.1, x.2⟩)
    (fun _ => rfl)

def token : Format Token :=
  (tokenId.option.prod (string.prod (string.prod (i32.prod (i64.prod (accountId.option.prod
    (bytes.option.prod (bytes.option.prod (bytes.option.prod (bytes.option.prod (bytes.option.prod
      (bool.prod (bool.prod (bool.prod (accountId.option.prod (i64.prod (i64.prod (string.prod
        (i32.prod (i32.prod (i64.prod (bytes.option.prod (bytes.list.prod (bytes.option.prod
          (bool.prod (bytes.prod bytes.option)))))))))))))))))))))))))).via
    (fun ⟨id, name, sym, dec, supply, treasury, admin, kyc, freeze, wipe, sup, frozen, granted, del,
        renewId, renew, exp, memo, kind, supplyKind, max, fee, fees, pause, paused, data,
        dataKey⟩ =>
      (id, name, sym, dec, supply, treasury, admin, kyc, freeze, wipe, sup, frozen, granted, del,
        renewId, renew, exp, memo, kind, supplyKind, max, fee, fees, pause, paused, data, dataKey))
    (fun (id, name, sym, dec, supply, treasury, admin, kyc, freeze, wipe, sup, frozen, granted, del,
        renewId, renew, exp, memo, kind, supplyKind, max, fee, fees, pause, paused, data,
        dataKey) =>
      ⟨id, name, sym, dec, supply, treasury, admin, kyc, freeze, wipe, sup, frozen, granted, del,
        renewId, renew, exp, memo, kind, supplyKind, max, fee, fees, pause, paused, data, dataKey⟩)
    (fun _ => rfl)

def timestamp : Format Timestamp :=
  (i64.prod i32).via (fun t => (t.seconds, t.nanos)) (fun x => ⟨x.1, x.2⟩) (fun _ => rfl)

def nft : Format Nft :=
  (nftId.option.prod (accountId.option.prod (timestamp.option.prod
    (bytes.prod accountId.option)))).via
    (fun n => (n.nftId, n.ownerId, n.mintTime, n.metadata, n.spenderId))
    (fun (id, owner, time, data, spender) => ⟨id, owner, time, data, spender⟩) (fun _ => rfl)

def blockStreamInfo : Format BlockStreamInfo :=
  (i32.prod (i32.prod (i32.prod (string.prod string)))).option.via
    (fun i => i.creationSoftwareVersion.map fun v => (v.major, v.minor, v.patch, v.pre, v.build))
    (fun x => ⟨x.map fun (major, minor, patch, pre, build) => ⟨major, minor, patch, pre, build⟩⟩)
    (by rintro ⟨_ | _⟩ <;> rfl)

def entityKey : Format EntityKey :=
  (sum accountId (sum topicId (sum scheduleId (sum fileId (sum contractId (sum tokenId
    (sum nftId bytes))))))).option.via
    (fun k => k.keyChoice.map fun
      | .accountIdKey id => .inl id
      | .topicIdKey id => .inr (.inl id)
      | .scheduleIdKey id => .inr (.inr (.inl id))
      | .fileIdKey id => .inr (.inr (.inr (.inl id)))
      | .contractIdKey id => .inr (.inr (.inr (.inr (.inl id))))
      | .tokenIdKey id => .inr (.inr (.inr (.inr (.inr (.inl id)))))
      | .nftIdKey id => .inr (.inr (.inr (.inr (.inr (.inr (.inl id))))))
      | .other rest => .inr (.inr (.inr (.inr (.inr (.inr (.inr rest)))))))
    (fun x => ⟨x.map (Sum.elim .accountIdKey (Sum.elim .topicIdKey (Sum.elim .scheduleIdKey
      (Sum.elim .fileIdKey (Sum.elim .contractIdKey (Sum.elim .tokenIdKey
        (Sum.elim .nftIdKey .other)))))))⟩)
    (by rintro ⟨_ | _ | _ | _ | _ | _ | _ | _ | _⟩ <;> rfl)

def entityValue : Format EntityValue :=
  (sum contractAccount (sum topic (sum schedule (sum file (sum bytecode (sum token
    (sum nft bytes))))))).option.via
    (fun v => v.valueChoice.map fun
      | .accountValue e => .inl e
      | .topicValue e => .inr (.inl e)
      | .scheduleValue e => .inr (.inr (.inl e))
      | .fileValue e => .inr (.inr (.inr (.inl e)))
      | .bytecodeValue e => .inr (.inr (.inr (.inr (.inl e))))
      | .tokenValue e => .inr (.inr (.inr (.inr (.inr (.inl e)))))
      | .nftValue e => .inr (.inr (.inr (.inr (.inr (.inr (.inl e))))))
      | .other rest => .inr (.inr (.inr (.inr (.inr (.inr (.inr rest)))))))
    (fun x => ⟨x.map (Sum.elim .accountValue (Sum.elim .topicValue (Sum.elim .scheduleValue
      (Sum.elim .fileValue (Sum.elim .bytecodeValue (Sum.elim .tokenValue
        (Sum.elim .nftValue .other)))))))⟩)
    (by rintro ⟨_ | _ | _ | _ | _ | _ | _ | _ | _⟩ <;> rfl)

end Format

/-- Messages that store everything as it is, with delimiters. -/
def plainEntities : EntityMessages where
  key := Format.entityKey.message
  value := Format.entityValue.message
  blockStreamInfo := Format.blockStreamInfo.message
  stateIdAccounts := 1
  stateIdTopics := 2
  stateIdSchedulesById := 3
  stateIdFiles := 4
  stateIdContractBytecode := 5
  stateIdTokens := 6
  stateIdNfts := 7
  stateIdBlockStreamInfo := 8

end RockNode
