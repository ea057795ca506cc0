import HeaderRules.Ancestor
import HeaderRules.Blank
import HeaderRules.Bytes
import HeaderRules.Chain
import HeaderRules.ChainParams
import HeaderRules.Command.Arguments
import HeaderRules.Command.Basic
import HeaderRules.Command.Run
import HeaderRules.CompactTarget
import HeaderRules.Decimal.Basic
import HeaderRules.Decimal.Shortest
import HeaderRules.Digest
import HeaderRules.Form.Block
import HeaderRules.Form.Params
import HeaderRules.Form.Pipeline
import HeaderRules.Form.Record
import HeaderRules.Form.Target
import HeaderRules.Genesis
import HeaderRules.Gravity.Average
import HeaderRules.Gravity.Kimoto
import HeaderRules.Gravity.Walk
import HeaderRules.Gravity.Wave
import HeaderRules.Gravity.Wave3
import HeaderRules.Hash.Aes
import HeaderRules.Hash.Blake512
import HeaderRules.Hash.Bmw512
import HeaderRules.Hash.CubeHash512
import HeaderRules.Hash.Echo512
import HeaderRules.Hash.Groestl512
import HeaderRules.Hash.Jh512
import HeaderRules.Hash.Keccak512
import HeaderRules.Hash.Luffa512
import HeaderRules.Hash.Scrypt
import HeaderRules.Hash.Sha256
import HeaderRules.Hash.Shavite512
import HeaderRules.Hash.Simd512
import HeaderRules.Hash.Skein512
import HeaderRules.Hash.Words
import HeaderRules.Hash.X11
import HeaderRules.Header
import HeaderRules.HeaderRun
import HeaderRules.Hex
import HeaderRules.Json.Printer
import HeaderRules.Json.Reader
import HeaderRules.Json.Value
import HeaderRules.Main
import HeaderRules.Params
import HeaderRules.Pipeline
import HeaderRules.Proofs.AcceptedRun
import HeaderRules.Proofs.Ancestry
import HeaderRules.Proofs.AverageDeviation
import HeaderRules.Proofs.ByteOrder
import HeaderRules.Proofs.CanonicalCode
import HeaderRules.Proofs.CheckedArithmetic
import HeaderRules.Proofs.CheckedAverage
import HeaderRules.Proofs.CheckedGravity
import HeaderRules.Proofs.CheckedRetarget
import HeaderRules.Proofs.CodeValue
import HeaderRules.Proofs.CompactCodec
import HeaderRules.Proofs.CompactWindow
import HeaderRules.Proofs.CompleteHistory
import HeaderRules.Proofs.ExactRatio
import HeaderRules.Proofs.FormRoundTrip
import HeaderRules.Proofs.GapPadding
import HeaderRules.Proofs.GenesisCoinbase
import HeaderRules.Proofs.GravityFailure
import HeaderRules.Proofs.GravityRun
import HeaderRules.Proofs.GravityWalk
import HeaderRules.Proofs.HeaderHex
import HeaderRules.Proofs.HexDigits
import HeaderRules.Proofs.KimotoForm
import HeaderRules.Proofs.LittleEndian
import HeaderRules.Proofs.MinDifficultySearch
import HeaderRules.Proofs.Outcome
import HeaderRules.Proofs.PipelineCheck
import HeaderRules.Proofs.PrecisionMask
import HeaderRules.Proofs.ProofOfWork
import HeaderRules.Proofs.RatioRetarget
import HeaderRules.Proofs.ReadSet
import HeaderRules.Proofs.RegistryFilling
import HeaderRules.Proofs.RelaxationBound
import HeaderRules.Proofs.RetargetCheck
import HeaderRules.Proofs.RetargetEnvelope
import HeaderRules.Proofs.RunState
import HeaderRules.Proofs.RunVerdict
import HeaderRules.Proofs.RunningAverage
import HeaderRules.Proofs.Schedule
import HeaderRules.Proofs.SelfCheck
import HeaderRules.Proofs.SerializedForm
import HeaderRules.Proofs.SlowerMining
import HeaderRules.Proofs.SteadyChain
import HeaderRules.Proofs.StoreChanges
import HeaderRules.Proofs.StrictRetarget
import HeaderRules.Proofs.TargetText
import HeaderRules.Proofs.TextList
import HeaderRules.Proofs.TolerantRetarget
import HeaderRules.Proofs.ValidatedChain
import HeaderRules.Proofs.Wave3Form
import HeaderRules.Registry
import HeaderRules.Retarget.Difficulty
import HeaderRules.Retarget.MinDifficulty
import HeaderRules.Retarget.Ratio
import HeaderRules.Saturating
import HeaderRules.Scenario
import HeaderRules.Store
import HeaderRules.Target
import HeaderRules.Timespan
import HeaderRules.Transaction
import HeaderRules.Verification
