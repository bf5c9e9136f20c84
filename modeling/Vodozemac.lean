import Vodozemac.Lib.HashRatchet
import Vodozemac.Lib.Leb128
import Vodozemac.Lib.Base64
import Vodozemac.Lib.Protobuf
import Vodozemac.Lib.Fallible
import Vodozemac.Lib.Bitwise
import Vodozemac.Lib.ArrayVec
import Vodozemac.Lib.Maps
import Vodozemac.Types
import Vodozemac.Primitives
import Vodozemac.Cipher
import Vodozemac.Utilities
import Vodozemac.Megolm.Ratchet
import Vodozemac.Megolm.RatchetAdvance
import Vodozemac.Megolm.Message
import Vodozemac.Megolm.SessionKeys
import Vodozemac.Megolm.GroupSession
import Vodozemac.Megolm.InboundGroupSession
import Vodozemac.Megolm.InboundInvariant
import Vodozemac.Megolm.Decryption
import Vodozemac.Megolm.Ordering
import Vodozemac.Olm.Messages
import Vodozemac.Olm.ChainKey
import Vodozemac.Olm.ReceiverChain
import Vodozemac.Olm.ReceiverChainInvariant
import Vodozemac.Olm.DoubleRatchet
import Vodozemac.Olm.Session
import Vodozemac.Olm.SessionInvariant
import Vodozemac.Olm.OneTimeKeys
import Vodozemac.Sas
import Vodozemac.Codecs
import Vodozemac.Olm.Decoding
import Vodozemac.Megolm.Decoding
import Vodozemac.Olm.Account
import Vodozemac.Olm.Conversation
import Vodozemac.Olm.ConversationInvariant
import Vodozemac.Olm.ConversationSafety
import Vodozemac.Olm.Handshake
import Vodozemac.Megolm.Observation
import Vodozemac.Olm.AccountObservation
import Vodozemac.Megolm.Replacement
