import JwtService.Proof.Revocation
import JwtService.Proof.Trips
import JwtService.Proof.Outage
import JwtService.Proof.Snapshot
import JwtService.Proof.Subjects
import JwtService.Proof.Isolation
import JwtService.Proof.Limits
import JwtService.Proof.Replay
import JwtService.Proof.FailOpen
import JwtService.Proof.KeyCreation
import JwtService.Proof.Families
import JwtService.Proof.Sweeps
import JwtService.Proof.Survivors
import JwtService.Proof.ClientIp
import JwtService.Proof.TokenForm
import JwtService.Proof.Ecdsa
import JwtService.Proof.CustomClaims
import JwtService.Proof.Lifetimes
import JwtService.Proof.RevokedCount
import JwtService.Proof.Retries
import JwtService.Proof.Bursts
import JwtService.Proof.Expiry
import JwtService.Proof.Winners
import JwtService.Codec.Base32
import JwtService.Model.AuthConfig
import JwtService.Model.Logging
import JwtService.Proof.Base32
import JwtService.Proof.Cidr
import JwtService.Proof.ErrorAnswers
import JwtService.Proof.FailedExchange
import JwtService.Proof.FamilyKill
import JwtService.Proof.HostCase
import JwtService.Proof.Hotp
import JwtService.Proof.Quotas
import JwtService.Proof.RetryAfter
import JwtService.Proof.Secrets
import JwtService.Proof.Series
import JwtService.Proof.SingleRevocation
import JwtService.Proof.Alive
import JwtService.Proof.Handed
import JwtService.Proof.RoundTrip
import JwtService.Proof.SharedCache
import JwtService.Proof.Tickets
import JwtService.Proof.Progress
import JwtService.Proof.Mediation
import JwtService.Proof.Accounts
